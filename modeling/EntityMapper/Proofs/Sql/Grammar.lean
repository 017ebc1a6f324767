import EntityMapper.Proofs.Sql.Lexemes

namespace EntityMapper

/-- The truth of a condition for a row. What compares with null is unknown. -/
inductive Truth where
  | yes
  | no
  | unknown
  deriving DecidableEq, Repr

namespace Truth

def ofBool (b : Bool) : Truth := if b then yes else no

def not : Truth → Truth
  | yes => no
  | no => yes
  | unknown => unknown

def and : Truth → Truth → Truth
  | no, _ | _, no => no
  | yes, yes => yes
  | _, _ => unknown

def or : Truth → Truth → Truth
  | yes, _ | _, yes => yes
  | no, no => no
  | _, _ => unknown

/-- The truth itself or that of the negation. -/
def signed (negated : Bool) (t : Truth) : Truth := if negated then t.not else t

/-- The conjunction of all truths, which is true of none. -/
def all : List Truth → Truth := List.foldr and yes

def any : List Truth → Truth := List.foldr or no

@[simp] theorem and_yes (t : Truth) : t.and yes = t := by cases t <;> rfl

@[simp] theorem or_no (t : Truth) : t.or no = t := by cases t <;> rfl

end Truth

/-- A condition made of atomic ones. -/
inductive Formula (α : Type) where
  | atom (a : α)
  | not (inner : Formula α)
  | and (left right : Formula α)
  | or (left right : Formula α)
  deriving DecidableEq, Repr

namespace Formula

variable {α β : Type}

def map (f : α → β) : Formula α → Formula β
  | atom a => atom (f a)
  | not inner => not (inner.map f)
  | and left right => and (left.map f) (right.map f)
  | or left right => or (left.map f) (right.map f)

/-- The atomic conditions from left to right. -/
def atoms : Formula α → List α
  | atom a => [a]
  | not inner => inner.atoms
  | and left right | or left right => left.atoms ++ right.atoms

def truth (v : α → Truth) : Formula α → Truth
  | atom a => v a
  | not inner => (inner.truth v).not
  | and left right => (left.truth v).and (right.truth v)
  | or left right => (left.truth v).or (right.truth v)

/-- The condition itself or its negation. -/
def signed (negated : Bool) (f : Formula α) : Formula α := if negated then not f else f

end Formula

/-- A condition that is not made of others, by the text of its operands. -/
inductive Atom where
  | compare (left : List Lexeme) (sign : String) (right : List Lexeme)
  | between (operand low high : List Lexeme)
  | among (operand members : List Lexeme)
  | null (operand : List Lexeme)
  | existence (query : List Lexeme)
  deriving DecidableEq, Repr

instance : Inhabited Atom := ⟨.existence []⟩

namespace Lexeme

/-- The words that a condition is made with. -/
def conditionWords : List String := ["SELECT", "AND", "OR", "NOT", "BETWEEN", "IN", "IS", "EXISTS"]

def signs : List String := ["=", "<>", ">", ">=", "<", "<="]

def opening : Lexeme := symbol "("

def closing : Lexeme := symbol ")"

/-- The lexeme may stand in an operand outside of parentheses. -/
def isPart : Lexeme → Bool
  | word s => !conditionWords.contains s
  | symbol s => !(signs.contains s || ["(", ")", ","].contains s)
  | identifier _ | placeholder => true
  | unclosed _ => false

def isBracket (l : Lexeme) : Bool := l == opening || l == closing

end Lexeme

open Lexeme (opening closing)

def enclosed (ls : List Lexeme) : List Lexeme := opening :: (ls ++ [closing])

/-- Every parenthesis that is opened is closed. -/
inductive Balanced : List Lexeme → Prop
  | nil : Balanced []
  | cons {l : Lexeme} {rest : List Lexeme} : l.isBracket = false → Balanced rest → Balanced (l :: rest)
  | group {inner rest : List Lexeme} : Balanced inner → Balanced rest → Balanced (enclosed inner ++ rest)

/-- An expression: neither a word of a condition nor a comparison stands in it, but inside of parentheses. -/
inductive Plain : List Lexeme → Prop
  | nil : Plain []
  | cons {l : Lexeme} {rest : List Lexeme} : l.isPart = true → Plain rest → Plain (l :: rest)
  | group {inner rest : List Lexeme} : Balanced inner → Plain rest → Plain (enclosed inner ++ rest)

def IsOperand (ls : List Lexeme) : Prop := ls ≠ [] ∧ Plain ls

/-- What may be said of an operand, and the condition that this makes. -/
inductive Test (operand : List Lexeme) : List Lexeme → Formula Atom → Prop
  | compare {sign : String} {right : List Lexeme} : sign ∈ Lexeme.signs → IsOperand right →
      Test operand (.symbol sign :: right) (.atom (.compare operand sign right))
  | between {low high : List Lexeme} : IsOperand low → IsOperand high →
      Test operand (.word "BETWEEN" :: (low ++ .word "AND" :: high)) (.atom (.between operand low high))
  | among (negated : Bool) {members : List Lexeme} : Balanced members →
      Test operand ((if negated then [.word "NOT", .word "IN"] else [.word "IN"]) ++ enclosed members)
        (.signed negated (.atom (.among operand members)))
  | null (negated : Bool) :
      Test operand (.word "IS" :: if negated then [.word "NOT", .word "NULL"] else [.word "NULL"])
        (.signed negated (.atom (.null operand)))

/-- How tightly a condition binds. -/
inductive Binding where
  | primary
  | factor
  | term
  | condition

/-- The grammar of conditions: NOT binds tighter than AND, and AND tighter than OR, and the AND behind BETWEEN belongs
to it. -/
inductive Reads : Binding → List Lexeme → Formula Atom → Prop
  | test {operand ls : List Lexeme} {f : Formula Atom} : IsOperand operand → Test operand ls f →
      Reads .primary (operand ++ ls) f
  | existence {query : List Lexeme} : Balanced query →
      Reads .primary (.word "EXISTS" :: enclosed query) (.atom (.existence query))
  | group {ls : List Lexeme} {f : Formula Atom} : Reads .condition ls f → Reads .primary (enclosed ls) f
  | factor {ls : List Lexeme} {f : Formula Atom} : Reads .primary ls f → Reads .factor ls f
  | not {ls : List Lexeme} {f : Formula Atom} : Reads .primary ls f → Reads .factor (.word "NOT" :: ls) (.not f)
  | term {ls : List Lexeme} {f : Formula Atom} : Reads .factor ls f → Reads .term ls f
  | and {ls ms : List Lexeme} {f g : Formula Atom} : Reads .factor ls f → Reads .term ms g →
      Reads .term (ls ++ .word "AND" :: ms) (.and f g)
  | condition {ls : List Lexeme} {f : Formula Atom} : Reads .term ls f → Reads .condition ls f
  | or {ls ms : List Lexeme} {f g : Formula Atom} : Reads .term ls f → Reads .condition ms g →
      Reads .condition (ls ++ .word "OR" :: ms) (.or f g)

section Unique

variable {as bs ls ms rs ss : List Lexeme}

theorem enclosed_append (ls rs : List Lexeme) : enclosed ls ++ rs = opening :: (ls ++ closing :: rs) := by
  rw [enclosed, List.cons_append, List.append_assoc, List.singleton_append]

/-- Where parentheses are closed is told by the text. -/
theorem Balanced.unique (first : Balanced as) (second : Balanced bs)
    (same : as ++ closing :: rs = bs ++ closing :: ss) : as = bs ∧ rs = ss := by
  induction first generalizing bs rs ss with
  | nil =>
    cases second with
    | nil => exact ⟨rfl, (List.cons.inj same).2⟩
    | cons free =>
      rw [← (List.cons.inj same).1] at free
      cases free
    | group =>
      rw [List.append_assoc, enclosed_append] at same
      exact absurd (List.cons.inj same).1 (by decide)
  | @cons l rest free _ ih =>
    cases second with
    | nil =>
      rw [(List.cons.inj same).1] at free
      cases free
    | cons _ others =>
      obtain ⟨head, tail⟩ := List.cons.inj same
      obtain ⟨equal, behind⟩ := ih others tail
      exact ⟨by rw [head, equal], behind⟩
    | group =>
      rw [List.append_assoc, enclosed_append] at same
      rw [(List.cons.inj same).1] at free
      cases free
  | @group inner rest _ _ inside outside =>
    rw [List.append_assoc, enclosed_append] at same
    cases second with
    | nil => exact absurd (List.cons.inj same).1 (by decide)
    | cons free =>
      rw [← (List.cons.inj same).1] at free
      cases free
    | group within others =>
      rw [List.append_assoc, enclosed_append] at same
      obtain ⟨rfl, tail⟩ := inside within (List.cons.inj same).2
      obtain ⟨rfl, behind⟩ := outside others tail
      exact ⟨rfl, behind⟩

theorem enclosed_unique (first : Balanced as) (second : Balanced bs) (same : enclosed as ++ rs = enclosed bs ++ ss) :
    as = bs ∧ rs = ss := by
  rw [enclosed_append, enclosed_append] at same
  exact first.unique second (List.cons.inj same).2

/-- No expression goes on with the first of these lexemes. -/
def Breaks (ls : List Lexeme) : Prop := ∀ l ∈ ls.head?, l.isPart = false ∧ l ≠ opening

theorem breaks_cons {l : Lexeme} (part : l.isPart = false) (other : l ≠ opening) : Breaks (l :: ls) := by
  intro l' head
  cases head
  exact ⟨part, other⟩

/-- Where an expression ends is told by the text. -/
theorem Plain.unique (first : Plain as) (second : Plain bs) (same : as ++ rs = bs ++ ss) (stops : Breaks rs)
    (ends : Breaks ss) : as = bs ∧ rs = ss := by
  induction first generalizing bs with
  | nil =>
    cases second with
    | nil => exact ⟨rfl, same⟩
    | @cons l _ part =>
      have broken := (stops l (by rw [← List.nil_append rs, same]; rfl)).1
      rw [part] at broken
      cases broken
    | group => exact absurd rfl (stops opening (by rw [← List.nil_append rs, same]; rfl)).2
  | @cons l rest part _ ih =>
    cases second with
    | nil =>
      have broken := (ends l (by rw [← List.nil_append ss, ← same]; rfl)).1
      rw [part] at broken
      cases broken
    | cons _ others =>
      obtain ⟨head, tail⟩ := List.cons.inj same
      obtain ⟨equal, behind⟩ := ih others tail
      exact ⟨by rw [head, equal], behind⟩
    | group =>
      rw [List.append_assoc, enclosed_append] at same
      rw [(List.cons.inj same).1] at part
      cases part
  | @group inner rest within _ ih =>
    rw [List.append_assoc] at same
    cases second with
    | nil => exact absurd rfl (ends opening (by rw [← List.nil_append ss, ← same]; rfl)).2
    | cons part =>
      rw [enclosed_append] at same
      rw [← (List.cons.inj same).1] at part
      cases part
    | group inside others =>
      rw [List.append_assoc] at same
      obtain ⟨rfl, tail⟩ := enclosed_unique within inside same
      obtain ⟨rfl, behind⟩ := ih others tail
      exact ⟨rfl, behind⟩

/-- The lexemes that may stand behind a condition. -/
def Binding.stops : Binding → List Lexeme
  | primary | factor => [closing, .word "OR", .word "AND"]
  | term => [closing, .word "OR"]
  | condition => [closing]

/-- A condition does not go on with these lexemes. -/
def Binding.Stops (b : Binding) (ls : List Lexeme) : Prop := ∀ l ∈ ls.head?, l ∈ b.stops

theorem Binding.stops_nil (b : Binding) : b.Stops [] := by
  intro l head
  cases head

theorem Binding.stops_cons {b : Binding} {l : Lexeme} (member : l ∈ b.stops) : b.Stops (l :: ls) := by
  intro l' head
  cases head
  exact member

theorem Binding.not_stops {b : Binding} {l : Lexeme} (onward : l ∉ b.stops) : ¬b.Stops (l :: ls) :=
  fun stops => onward (stops l rfl)

theorem Binding.Stops.mono {b c : Binding} (stops : b.Stops ls) (subset : b.stops ⊆ c.stops) : c.Stops ls :=
  fun l head => subset (stops l head)

theorem Binding.Stops.breaks (stops : Binding.primary.Stops ls) : Breaks ls := by
  intro l head
  have member := stops l head
  simp only [Binding.stops, List.mem_cons, List.not_mem_nil, or_false] at member
  rcases member with rfl | rfl | rfl <;> decide

theorem Test.breaks {operand : List Lexeme} {f : Formula Atom} (test : Test operand ls f) (rs : List Lexeme) :
    Breaks (ls ++ rs) ∧ ¬Binding.primary.Stops (ls ++ rs) := by
  have head {l : Lexeme} {rest : List Lexeme} (part : l.isPart = false) (other : l ≠ opening)
      (onward : l ∉ Binding.primary.stops) : Breaks (l :: rest) ∧ ¬Binding.primary.Stops (l :: rest) :=
    ⟨breaks_cons part other, Binding.not_stops onward⟩
  cases test with
  | @compare sign _ known =>
    simp only [Lexeme.signs, List.mem_cons, List.not_mem_nil, or_false] at known
    refine head ?_ ?_ ?_
    all_goals rcases known with rfl | rfl | rfl | rfl | rfl | rfl <;> decide
  | between => exact head (by decide) (by decide) (by decide)
  | among negated =>
    cases negated with
    | false => exact head (by decide) (by decide) (by decide)
    | true => exact head (by decide) (by decide) (by decide)
  | null => exact head (by decide) (by decide) (by decide)

/-- What is said of an operand, and where that ends, is told by the text. -/
theorem Test.unique {operand : List Lexeme} {f g : Formula Atom} (first : Test operand ls f)
    (second : Test operand ms g) (same : ls ++ rs = ms ++ ss) (stops : Binding.primary.Stops rs)
    (ends : Binding.primary.Stops ss) : ls = ms ∧ rs = ss ∧ f = g := by
  have conjunction (rest : List Lexeme) : Breaks (.word "AND" :: rest) := breaks_cons (by decide) (by decide)
  cases first with
  | compare _ right =>
    cases second with
    | compare _ right' =>
      obtain ⟨head, tail⟩ := List.cons.inj same
      cases head
      obtain ⟨rfl, behind⟩ := right.2.unique right'.2 tail stops.breaks ends.breaks
      exact ⟨rfl, behind, rfl⟩
    | between => cases (List.cons.inj same).1
    | among negated => cases negated <;> cases (List.cons.inj same).1
    | null => cases (List.cons.inj same).1
  | between low high =>
    cases second with
    | between low' high' =>
      rw [List.cons_append, List.cons_append, List.append_assoc, List.append_assoc] at same
      obtain ⟨rfl, tail⟩ := low.2.unique low'.2 (List.cons.inj same).2 (conjunction _) (conjunction _)
      obtain ⟨rfl, behind⟩ := high.2.unique high'.2 (List.cons.inj tail).2 stops.breaks ends.breaks
      exact ⟨rfl, behind, rfl⟩
    | compare => cases (List.cons.inj same).1
    | among negated => cases negated <;> exact absurd (List.cons.inj same).1 (by decide)
    | null => exact absurd (List.cons.inj same).1 (by decide)
  | among negated members =>
    cases second with
    | among negated' members' =>
      rw [List.append_assoc, List.append_assoc] at same
      have agree : negated = negated' := by
        cases negated <;> cases negated'
        · rfl
        · exact absurd (List.cons.inj same).1 (by decide)
        · exact absurd (List.cons.inj same).1 (by decide)
        · rfl
      subst agree
      obtain ⟨rfl, behind⟩ := enclosed_unique members members' (List.append_cancel_left same)
      exact ⟨rfl, behind, rfl⟩
    | compare => cases negated <;> cases (List.cons.inj same).1
    | between => cases negated <;> exact absurd (List.cons.inj same).1 (by decide)
    | null => cases negated <;> exact absurd (List.cons.inj same).1 (by decide)
  | null negated =>
    cases second with
    | null negated' =>
      have tail := (List.cons.inj same).2
      cases negated <;> cases negated'
      · exact ⟨rfl, (List.cons.inj tail).2, rfl⟩
      · exact absurd (List.cons.inj tail).1 (by decide)
      · exact absurd (List.cons.inj tail).1 (by decide)
      · exact ⟨rfl, (List.cons.inj (List.cons.inj tail).2).2, rfl⟩
    | compare => cases (List.cons.inj same).1
    | between => exact absurd (List.cons.inj same).1 (by decide)
    | among negated' => cases negated' <;> exact absurd (List.cons.inj same).1 (by decide)

theorem Balanced.append (left : Balanced ls) (right : Balanced ms) : Balanced (ls ++ ms) := by
  induction left with
  | nil => exact right
  | cons free _ ih => exact .cons free ih
  | group inner _ _ ih =>
    rw [List.append_assoc]
    exact .group inner ih

theorem Balanced.enclosed (inner : Balanced ls) : Balanced (enclosed ls) := by
  rw [← List.append_nil (EntityMapper.enclosed ls)]
  exact .group inner .nil

theorem Lexeme.isBracket_of_isPart {l : Lexeme} (part : l.isPart = true) : l.isBracket = false := by
  rw [isBracket, Bool.or_eq_false_iff, beq_eq_false_iff_ne, beq_eq_false_iff_ne]
  constructor
  all_goals
    rintro rfl
    cases part

theorem Plain.balanced (plain : Plain ls) : Balanced ls := by
  induction plain with
  | nil => exact .nil
  | cons part _ ih => exact .cons (Lexeme.isBracket_of_isPart part) ih
  | group inner _ ih => exact .group inner ih

theorem Test.balanced {operand : List Lexeme} {f : Formula Atom} (test : Test operand ls f) : Balanced ls := by
  cases test with
  | @compare sign _ known right =>
    refine .cons ?_ right.2.balanced
    simp only [Lexeme.signs, List.mem_cons, List.not_mem_nil, or_false] at known
    rcases known with rfl | rfl | rfl | rfl | rfl | rfl <;> decide
  | between low high => exact .cons (by decide) (low.2.balanced.append (.cons (by decide) high.2.balanced))
  | among negated members =>
    cases negated with
    | false => exact .cons (by decide) members.enclosed
    | true => exact .cons (by decide) (.cons (by decide) members.enclosed)
  | null negated =>
    cases negated with
    | false => exact .cons (by decide) (.cons (by decide) .nil)
    | true => exact .cons (by decide) (.cons (by decide) (.cons (by decide) .nil))

theorem Reads.balanced {b : Binding} {f : Formula Atom} (reads : Reads b ls f) : Balanced ls := by
  induction reads with
  | test operand test => exact operand.2.balanced.append test.balanced
  | existence query => exact .cons (by decide) query.enclosed
  | group _ ih => exact ih.enclosed
  | factor _ ih | term _ ih | condition _ ih => exact ih
  | not _ ih => exact .cons (by decide) ih
  | and _ _ left right | or _ _ left right => exact left.append (.cons (by decide) right)

/-- An expression that something is said of is no condition in parentheses. -/
theorem Plain.not_enclosed {f : Formula Atom} (plain : Plain as) (some : as ≠ []) (test : Test as ls f)
    (inner : Balanced bs) (same : as ++ (ls ++ rs) = enclosed bs ++ ss) : ¬Binding.primary.Stops ss := by
  intro stops
  cases plain with
  | nil => exact some rfl
  | cons part =>
    rw [enclosed_append] at same
    rw [(List.cons.inj same).1] at part
    cases part
  | group within rest =>
    rw [List.append_assoc] at same
    obtain ⟨_, behind⟩ := enclosed_unique within inner same
    rw [← behind] at stops
    cases rest with
    | nil => exact (test.breaks rs).2 stops
    | cons part => exact absurd ((stops.breaks _ rfl).1.symm.trans part) (by decide)
    | group => exact (stops.breaks _ rfl).2 rfl

/-- No expression begins with a word of a condition. -/
theorem IsOperand.ne_word (operand : IsOperand ls) {s : String} (known : s ∈ Lexeme.conditionWords)
    (rest : List Lexeme) : ls ++ rs ≠ .word s :: rest := by
  intro same
  cases operand.2 with
  | nil => exact operand.1 rfl
  | cons part =>
    rw [(List.cons.inj same).1, Lexeme.isPart, List.contains_iff_mem.mpr known] at part
    cases part
  | group => cases (List.cons.inj same).1

/-- A condition that is not negated does not begin with NOT. -/
theorem Reads.ne_not {f : Formula Atom} (reads : Reads .primary ls f) (rest : List Lexeme) :
    ls ++ rs ≠ .word "NOT" :: rest := by
  intro same
  cases reads with
  | test operand test =>
    rw [List.append_assoc] at same
    exact operand.ne_word (by decide) rest same
  | existence => exact absurd (List.cons.inj same).1 (by decide)
  | group => cases (List.cons.inj same).1

/-- The text tells that it is this condition, and where it ends. -/
def Determined (b : Binding) (ls : List Lexeme) (f : Formula Atom) : Prop :=
  ∀ ms g rs ss, Reads b ms g → ls ++ rs = ms ++ ss → b.Stops rs → b.Stops ss → ls = ms ∧ rs = ss ∧ f = g

/-- Conditions of the first kind make one of the second kind when a word stands between them. -/
inductive Chains : Binding → Binding → Lexeme → (Formula Atom → Formula Atom → Formula Atom) → Prop
  | conjunction : Chains .factor .term (.word "AND") .and
  | disjunction : Chains .term .condition (.word "OR") .or

namespace Chains

variable {b c : Binding} {word : Lexeme} {join : Formula Atom → Formula Atom → Formula Atom} {f g : Formula Atom}

theorem stops (chains : Chains b c word join) : c.stops ⊆ b.stops ∧ word ∈ b.stops ∧ word ∉ c.stops := by
  cases chains <;> decide

theorem inversion (chains : Chains b c word join) (reads : Reads c ms g) :
    Reads b ms g ∨ ∃ ls' ms' f' g', ms = ls' ++ word :: ms' ∧ g = join f' g' ∧ Reads b ls' f' ∧ Reads c ms' g' := by
  cases chains with
  | conjunction =>
    cases reads with
    | term inner => exact .inl inner
    | and left right => exact .inr ⟨_, _, _, _, rfl, rfl, left, right⟩
  | disjunction =>
    cases reads with
    | condition inner => exact .inl inner
    | or left right => exact .inr ⟨_, _, _, _, rfl, rfl, left, right⟩

theorem single (chains : Chains b c word join) (determined : Determined b ls f) : Determined c ls f := by
  obtain ⟨subset, member, onward⟩ := chains.stops
  intro ms g rs ss reads same stops ends
  rcases chains.inversion reads with inner | ⟨left, right, _, _, rfl, rfl, inner, _⟩
  · exact determined _ _ _ _ inner same (stops.mono subset) (ends.mono subset)
  · rw [List.append_assoc] at same
    obtain ⟨_, behind, _⟩ := determined _ _ _ _ inner same (stops.mono subset) (Binding.stops_cons member)
    rw [behind] at stops
    exact absurd stops (Binding.not_stops onward)

theorem pair (chains : Chains b c word join) (first : Determined b ls f) (second : Determined c ms g) :
    Determined c (ls ++ word :: ms) (join f g) := by
  obtain ⟨subset, member, onward⟩ := chains.stops
  intro ls' g' rs ss reads same stops ends
  rw [List.append_assoc] at same
  rcases chains.inversion reads with inner | ⟨left, right, _, _, rfl, rfl, inner, further⟩
  · obtain ⟨_, behind, _⟩ := first _ _ _ _ inner same (Binding.stops_cons member) (ends.mono subset)
    rw [← behind] at ends
    exact absurd ends (Binding.not_stops onward)
  · rw [List.append_assoc] at same
    obtain ⟨rfl, tail, rfl⟩ := first _ _ _ _ inner same (Binding.stops_cons member) (Binding.stops_cons member)
    obtain ⟨rfl, behind, rfl⟩ := second _ _ _ _ further (List.cons.inj tail).2 stops ends
    exact ⟨rfl, behind, rfl⟩

end Chains

/-- The grammar is unambiguous: a text reads as one condition, and the text tells where it ends. -/
theorem Reads.determined {b : Binding} {f : Formula Atom} (reads : Reads b ls f) : Determined b ls f := by
  -- By the way the first text is read; where the second is read by another rule, the texts differ in a lexeme.
  induction reads with
  | test operand test =>
    intro ms g rs ss second same stops ends
    rw [List.append_assoc] at same
    cases second with
    | test operand' test' =>
      rw [List.append_assoc] at same
      obtain ⟨rfl, tail⟩ := operand.2.unique operand'.2 same (test.breaks _).1 (test'.breaks _).1
      obtain ⟨rfl, behind, rfl⟩ := test.unique test' tail stops ends
      exact ⟨rfl, behind, rfl⟩
    | existence => exact absurd same (operand.ne_word (by decide) _)
    | group inner => exact absurd ends (operand.2.not_enclosed operand.1 test inner.balanced same)
  | existence query =>
    intro ms g rs ss second same stops ends
    cases second with
    | test operand' test' =>
      rw [List.append_assoc] at same
      exact absurd same.symm (operand'.ne_word (by decide) _)
    | existence query' =>
      obtain ⟨rfl, behind⟩ := enclosed_unique query query' (List.cons.inj same).2
      exact ⟨rfl, behind, rfl⟩
    | group => cases (List.cons.inj same).1
  | group inner ih =>
    intro ms g rs ss second same stops ends
    cases second with
    | test operand' test' =>
      rw [List.append_assoc] at same
      exact absurd stops (operand'.2.not_enclosed operand'.1 test' inner.balanced same.symm)
    | existence => cases (List.cons.inj same).1
    | group inner' =>
      obtain ⟨rfl, behind⟩ := enclosed_unique inner.balanced inner'.balanced same
      obtain ⟨_, _, rfl⟩ := ih _ _ _ _ inner' rfl (Binding.stops_nil _) (Binding.stops_nil _)
      exact ⟨rfl, behind, rfl⟩
  | factor inner ih =>
    intro ms g rs ss second same stops ends
    cases second with
    | factor inner' => exact ih _ _ _ _ inner' same stops ends
    | not => exact absurd same (inner.ne_not _)
  | not _ ih =>
    intro ms g rs ss second same stops ends
    cases second with
    | factor inner' => exact absurd same.symm (inner'.ne_not _)
    | not inner' =>
      obtain ⟨rfl, behind, rfl⟩ := ih _ _ _ _ inner' (List.cons.inj same).2 stops ends
      exact ⟨rfl, behind, rfl⟩
  | term _ ih => exact Chains.conjunction.single ih
  | and _ _ left right => exact Chains.conjunction.pair left right
  | condition _ ih => exact Chains.disjunction.single ih
  | or _ _ left right => exact Chains.disjunction.pair left right

end Unique

end EntityMapper
