import Mathlib.Data.List.Forall2
import EntityMapper.Proofs.Compile.Acceptance
import EntityMapper.Proofs.Numbers.Equality
import EntityMapper.Proofs.Session.FirstResult

namespace EntityMapper

section Firsts

variable {α β γ : Type} [DecidableEq β] [DecidableEq γ] {f : α → β} {g : α → γ}

/-- The first of the items with each key, in their order. -/
def firstsBy (f : α → β) (xs : List α) : List α := xs.eraseDupsBy fun a b => f a = f b

theorem firstsBy_cons (a : α) (xs : List α) : firstsBy f (a :: xs) = a :: firstsBy f (xs.filter fun b => f b ≠ f a) := by
  rw [firstsBy, List.eraseDupsBy_cons, firstsBy]
  simp only [decide_eq_false_iff_not]

/-- Induction over what is left of a list once all items with the key of its first one are gone. -/
theorem firstsBy_induction {P : List α → Prop} (f : α → β) (nil : P [])
    (cons : ∀ a xs, P (xs.filter fun b => f b ≠ f a) → P (a :: xs)) (xs : List α) : P xs := by
  induction length : xs.length using Nat.strong_induction_on generalizing xs with
  | _ n ih =>
    cases xs with
    | nil => exact nil
    | cons a rest =>
      have shorter : (rest.filter fun b => f b ≠ f a).length < n := by
        rw [← length, List.length_cons]
        exact Nat.lt_succ_of_le (List.length_filter_le _ _)
      exact cons a rest (ih _ shorter _ rfl)

theorem firstsBy_sublist (f : α → β) (xs : List α) : (firstsBy f xs).Sublist xs := by
  induction xs using firstsBy_induction f with
  | nil => exact .slnil
  | cons a rest ih =>
    rw [firstsBy_cons]
    exact (ih.trans List.filter_sublist).cons_cons a

theorem nodup_firstsBy (f : α → β) (xs : List α) : ((firstsBy f xs).map f).Nodup := by
  induction xs using firstsBy_induction f with
  | nil => exact .nil
  | cons a rest ih =>
    rw [firstsBy_cons, List.map_cons, List.nodup_cons]
    refine ⟨fun again => ?_, ih⟩
    obtain ⟨b, member, same⟩ := List.mem_map.mp again
    exact of_decide_eq_true (List.mem_filter.mp ((firstsBy_sublist f _).mem member)).2 same

theorem exists_mem_firstsBy {xs : List α} {a : α} (member : a ∈ xs) : ∃ b ∈ firstsBy f xs, f b = f a := by
  induction xs using firstsBy_induction f with
  | nil => exact absurd member List.not_mem_nil
  | cons first rest ih =>
    rw [firstsBy_cons]
    by_cases same : f a = f first
    · exact ⟨first, List.mem_cons_self, same.symm⟩
    · have later : a ∈ rest := (List.mem_cons.mp member).resolve_left fun own => same (own ▸ rfl)
      obtain ⟨b, kept, own⟩ := ih (List.mem_filter.mpr ⟨later, decide_eq_true same⟩)
      exact ⟨b, List.mem_cons_of_mem _ kept, own⟩

/-- Leaving out whole classes of items commutes with taking the first of each class. -/
theorem filter_firstsBy {keep : α → Bool} (respects : ∀ a b, f a = f b → keep a = keep b) (xs : List α) :
    (firstsBy f xs).filter keep = firstsBy f (xs.filter keep) := by
  induction xs using firstsBy_induction f with
  | nil => rfl
  | cons a rest ih =>
    rw [firstsBy_cons, List.filter_cons, List.filter_cons, ih]
    split
    case isTrue kept => rw [firstsBy_cons, List.filter_filter, List.filter_filter]; simp only [Bool.and_comm]
    case isFalse left =>
      congr 1
      rw [List.filter_filter]
      refine List.filter_congr fun b _ => ?_
      cases keeps : keep b with
      | false => rfl
      | true =>
        have other : f b ≠ f a := fun same => left (respects b a same ▸ keeps)
        rw [Bool.true_and, decide_eq_true other]

/-- Items may be told apart more finely first. -/
theorem firstsBy_firstsBy (coarser : ∀ a b, f a = f b → g a = g b) (xs : List α) :
    firstsBy g (firstsBy f xs) = firstsBy g xs := by
  induction xs using firstsBy_induction g with
  | nil => rfl
  | cons a rest ih =>
    have respects (b c : α) (same : f b = f c) : decide (g b ≠ g a) = decide (g c ≠ g a) := by rw [coarser b c same]
    have fewer : (rest.filter fun b => f b ≠ f a).filter (fun b => g b ≠ g a) = rest.filter fun b => g b ≠ g a := by
      rw [List.filter_filter]
      refine List.filter_congr fun b _ => ?_
      by_cases same : f b = f a
      · rw [decide_eq_false (not_not_intro (coarser b a same)), Bool.false_and]
      · rw [decide_eq_true same, Bool.and_true]
    rw [firstsBy_cons, firstsBy_cons, firstsBy_cons, filter_firstsBy respects, fewer, ih]

theorem firstsBy_of_nodup {xs : List α} (distinct : (xs.map f).Nodup) : firstsBy f xs = xs := by
  induction xs with
  | nil => rfl
  | cons a rest ih =>
    obtain ⟨fresh, distinct⟩ := List.nodup_cons.mp distinct
    have others : (rest.filter fun b => f b ≠ f a) = rest := by
      refine List.filter_eq_self.mpr fun b member => decide_eq_true fun same => fresh ?_
      exact List.mem_map.mpr ⟨b, member, same⟩
    rw [firstsBy_cons, others, ih distinct]

/-- Two ways to tell items apart keep the same ones exactly when they tell the same ones apart. -/
theorem firstsBy_eq_iff (coarser : ∀ a b, f a = f b → g a = g b) {xs : List α} :
    firstsBy g xs = firstsBy f xs ↔ ∀ a ∈ xs, ∀ b ∈ xs, g a = g b → f a = f b := by
  constructor
  · intro same a left b right alike
    obtain ⟨c, keptC, atC⟩ := exists_mem_firstsBy (f := f) left
    obtain ⟨d, keptD, atD⟩ := exists_mem_firstsBy (f := f) right
    have classes : g c = g d := (coarser c a atC).trans (alike.trans (coarser d b atD).symm)
    have one : c = d := List.inj_on_of_nodup_map (same ▸ nodup_firstsBy g xs) keptC keptD classes
    rw [← atC, ← atD, one]
  · intro finer
    rw [← firstsBy_firstsBy coarser]
    have inside := (firstsBy_sublist f xs).subset
    refine firstsBy_of_nodup (List.Nodup.map_on ?_ (List.Nodup.of_map f (nodup_firstsBy f xs)))
    intro a left b right same
    exact List.inj_on_of_nodup_map (nodup_firstsBy f xs) left right (finer a (inside left) b (inside right) same)

end Firsts

namespace Double

variable {a b d : Double}

/-- The two are one number to a store: finite ones that denote the same, infinite ones of one sign, or both none at
all. -/
def Same (a b : Double) : Prop := a = b ∨ (a.isFinite ∧ b.isFinite ∧ a.number = b.number) ∨ (a.isNaN ∧ b.isNaN)

/-- One pattern for each number that has several. -/
def canonical (d : Double) : Double := if d.isZero then ⟨0⟩ else if d.isNaN then nan else d

theorem same_iff_pattern : a.Same b ↔ a = b ∨ (a.isZero ∧ b.isZero) ∨ (a.isNaN ∧ b.isNaN) := by
  unfold Same
  constructor
  · rintro (same | ⟨_, _, number⟩ | none)
    · exact .inl same
    · exact (number_eq_iff_pattern.mp number).imp_right .inl
    · exact .inr (.inr none)
  · rintro (same | zeros | none)
    · exact .inl same
    · exact .inr (.inl ⟨isFinite_of_isZero zeros.1, isFinite_of_isZero zeros.2, number_eq_iff_pattern.mpr (.inr zeros)⟩)
    · exact .inr (.inr none)

theorem isZero_canonical : d.canonical.isZero = d.isZero := by
  unfold canonical
  cases zero : d.isZero with
  | true =>
    rw [if_pos rfl]
    rfl
  | false =>
    rw [if_neg Bool.false_ne_true]
    split
    · rfl
    · exact zero

theorem isNaN_canonical : d.canonical.isNaN = d.isNaN := by
  unfold canonical
  cases zero : d.isZero with
  | true =>
    rw [if_pos rfl, isNaN_of_isFinite (isFinite_of_isZero zero)]
    rfl
  | false =>
    rw [if_neg Bool.false_ne_true]
    split
    case isTrue none => exact none.symm
    case isFalse => rfl

theorem not_isZero_of_isNaN (none : d.isNaN) : ¬d.isZero := by
  intro zero
  rw [isNaN_of_isFinite (isFinite_of_isZero zero)] at none
  exact Bool.false_ne_true none

/-- The canonical pattern tells which number it is. -/
theorem same_iff_canonical : a.Same b ↔ a.canonical = b.canonical := by
  rw [same_iff_pattern]
  constructor
  · rintro (rfl | ⟨zeroA, zeroB⟩ | ⟨noneA, noneB⟩)
    · rfl
    · rw [canonical, canonical, if_pos zeroA, if_pos zeroB]
    · have unlikeA := not_isZero_of_isNaN noneA
      have unlikeB := not_isZero_of_isNaN noneB
      rw [canonical, canonical, if_neg unlikeA, if_neg unlikeB, if_pos noneA, if_pos noneB]
  · intro same
    have zeros : a.isZero = b.isZero := by rw [← isZero_canonical, same, isZero_canonical]
    have nones : a.isNaN = b.isNaN := by rw [← isNaN_canonical, same, isNaN_canonical]
    by_cases zero : a.isZero
    · exact .inr (.inl ⟨zero, zeros ▸ zero⟩)
    · by_cases none : a.isNaN
      · exact .inr (.inr ⟨none, nones ▸ none⟩)
      · rw [canonical, canonical, ← zeros, ← nones, if_neg zero, if_neg zero, if_neg none, if_neg none] at same
        exact .inl same

end Double

/-- Equal values of one type, numbers as a store compares them. -/
def Value.Same : Value → Value → Prop
  | .float a, .float b => a.Same b
  | v, w => v = w

def Value.canonical : Value → Value
  | .float d => .float d.canonical
  | v => v

theorem Value.same_iff_canonical {v w : Value} : v.Same w ↔ v.canonical = w.canonical := by
  cases v with
  | float a =>
    cases w with
    | float b => exact Double.same_iff_canonical.trans (Value.float.injEq _ _).symm.to_iff
    | null | bool _ | int _ | text _ => exact iff_of_false (fun same => nomatch same) fun same => nomatch same
  | null | bool _ | int _ | text _ =>
    cases w with
    | float b => exact iff_of_false (fun same => nomatch same) fun same => nomatch same
    | null | bool _ | int _ | text _ => exact Iff.rfl

/-- Values that are the same in two patterns are zeros of different signs or both not numbers. -/
theorem Value.patterns_of_same {v w : Value} (same : v.Same w) (other : v ≠ w) : ∃ a b, v = .float a ∧ w = .float b ∧
    a ≠ b ∧ (a.isZero ∧ b.isZero ∨ a.isNaN ∧ b.isNaN) := by
  cases v with
  | float a =>
    cases w with
    | float b =>
      have apart : a ≠ b := fun equal => other (congrArg Value.float equal)
      exact ⟨a, b, rfl, rfl, apart, (Double.same_iff_pattern.mp same).resolve_left apart⟩
    | null | bool _ | int _ | text _ => cases same
  | null | bool _ | int _ | text _ =>
    cases w with
    | float b => cases same
    | null | bool _ | int _ | text _ => exact absurd same other

/-- Equal values, or the same instance, which may be absent on both sides. -/
def Cell.Same : Cell → Cell → Prop
  | .value v, .value w => v.Same w
  | c, d => c = d

def Cell.canonical : Cell → Cell
  | .value v => .value v.canonical
  | .entity r => .entity r

theorem Cell.same_iff_canonical {c d : Cell} : c.Same d ↔ c.canonical = d.canonical := by
  cases c with
  | value v =>
    cases d with
    | value w => exact Value.same_iff_canonical.trans (Cell.value.injEq _ _).symm.to_iff
    | entity _ => exact iff_of_false (fun same => nomatch same) fun same => nomatch same
  | entity r =>
    cases d with
    | value _ => exact iff_of_false (fun same => nomatch same) fun same => nomatch same
    | entity _ => exact Iff.rfl

/-- Somewhere the two have one number in two patterns, which are zeros of different signs or both not numbers. -/
def Cell.Patterns (cs ds : List Cell) : Prop := ∃ (n : ℕ) (a b : Double), cs[n]? = some (.value (.float a)) ∧
  ds[n]? = some (.value (.float b)) ∧ a ≠ b ∧ (a.isZero ∧ b.isZero ∨ a.isNaN ∧ b.isNaN)

/-- Items that are the same differ in nothing but patterns of numbers. -/
theorem Cell.patterns_iff {cs ds : List Cell} (same : List.Forall₂ Cell.Same cs ds) : Patterns cs ds ↔ cs ≠ ds := by
  constructor
  · rintro ⟨n, a, b, left, right, other, _⟩ rfl
    cases left.symm.trans right
    exact other rfl
  · intro other
    induction same with
    | nil => exact absurd rfl other
    | @cons c d cs ds first later ih =>
      by_cases equal : c = d
      · obtain ⟨n, a, b, left, right, patterns⟩ := ih fun rest => other (by rw [equal, rest])
        exact ⟨n + 1, a, b, left, right, patterns⟩
      · cases c with
        | value v =>
          cases d with
          | value w =>
            obtain ⟨a, b, rfl, rfl, patterns⟩ := Value.patterns_of_same first fun own => equal (congrArg Cell.value own)
            exact ⟨0, a, b, rfl, rfl, patterns⟩
          | entity _ => cases first
        | entity _ =>
          cases d with
          | value _ => cases first
          | entity _ => exact absurd first equal

namespace Record

variable {r s : Record}

/-- All items of the records are the same. -/
def Same (r s : Record) : Prop := List.Forall₂ Cell.Same r.distinctKey s.distinctKey

theorem same_iff_canonical : r.Same s ↔ r.distinctKey.map Cell.canonical = s.distinctKey.map Cell.canonical := by
  rw [← List.forall₂_eq_eq_eq, List.forall₂_map_left_iff, List.forall₂_map_right_iff, Same]
  exact ⟨.imp fun _ _ => Cell.same_iff_canonical.mp, .imp fun _ _ => Cell.same_iff_canonical.mpr⟩

instance : DecidableRel Same := fun _ _ => decidable_of_iff _ same_iff_canonical.symm

/-- The first record of each class of equal ones. -/
def firsts (records : List Record) : List Record := records.eraseDupsBy fun r s => r.Same s

theorem firsts_eq (records : List Record) : firsts records = firstsBy (·.distinctKey.map Cell.canonical) records := by
  unfold firsts firstsBy
  simp only [same_iff_canonical]

/-- The records that are told apart are the first ones with their keys. -/
theorem distinctFrom_eq (seen : List (List Cell)) (records : List Record) :
    distinctFrom seen records = firstsBy distinctKey (records.filter (·.distinctKey ∉ seen)) := by
  induction records generalizing seen with
  | nil => rfl
  | cons r rest ih =>
    unfold distinctFrom
    by_cases known : r.distinctKey ∈ seen
    · rw [if_pos known, List.filter_cons_of_neg (by simpa using known), ih]
    · rw [if_neg known, List.filter_cons_of_pos (by simpa using known), firstsBy_cons, ih, List.filter_filter]
      simp only [List.mem_cons, not_or, ← Bool.decide_and, ne_eq]

theorem distinct_eq (records : List Record) : distinct records = firstsBy distinctKey records := by
  rw [distinct, distinctFrom_eq]
  simp

end Record

theorem ne_nil_of_fetchJoins {owners : List String} {j : Join} {rest : List Join} {fetched : List FetchJoin}
    (run : fetchJoins owners (j :: rest) = .ok fetched) : fetched ≠ [] := by
  unfold fetchJoins at run
  split at run
  case h_1 => cases run
  case h_2 path _ =>
    split at run
    case isTrue => cases run
    case isFalse =>
      split at run
      case isTrue => cases run
      case isFalse =>
        obtain ⟨others, _, run⟩ := Except.bind_eq_ok.mp run
        cases run
        exact List.cons_ne_nil _ _

/-- A plan that fetches what it joins has a layout that does. -/
theorem compile_fetching {registry : Registry} {d : Dialect} {p : Plan} {query : CompiledQuery}
    (compiled : compile registry d p = .ok query) {j : Join} (member : j ∈ p.joins) (fetching : j.fetch = true) :
    query.layout.fetches ≠ [] := by
  obtain ⟨s, resolved, compiled⟩ := Except.bind_eq_ok.mp compiled
  cases compiled
  obtain ⟨scope, r⟩ := Select.ofPlan_eq_ok.mp resolved
  obtain ⟨fetched, atFetches, fetches⟩ := r.fetches
  have inside : j ∈ p.joins.filter (·.fetch) := List.mem_filter.mpr ⟨member, fetching⟩
  have some : fetched ≠ [] := by
    unfold Plan.fetches at atFetches
    cases joined : p.joins.filter (·.fetch) with
    | nil =>
      rw [joined] at inside
      exact absurd inside List.not_mem_nil
    | cons first rest =>
      rw [joined] at atFetches
      exact ne_nil_of_fetchJoins atFetches
  rw [fetches, if_neg (by decide)]
  cases fetched with
  | nil => exact absurd rfl some
  | cons f rest => exact List.cons_ne_nil _ _

namespace Session

variable {α : Type} {decode : Record → Except Error α} {w : Work} {p : Plan} {rows : RowSet} {query : CompiledQuery}
  {records : List Record} {h : Hydration} {all : List α}

theorem exists_mapM_of_sublist {kept : List Record} (sublist : kept.Sublist records)
    (decoded : records.mapM decode = .ok all) : ∃ results, kept.mapM decode = .ok results := by
  refine accepted_mapM.mpr fun r member => ?_
  obtain ⟨a, _, read⟩ := Except.ok_of_mapM decoded (sublist.mem member)
  exact ⟨a, read⟩

theorem length_of_mapM (decoded : records.mapM decode = .ok all) : records.length = all.length :=
  (Except.mapM_eq_ok.mp decoded).length_eq

/-- A distinct plan that fetches gives the first of all equal records exactly when no two of them differ in the pattern of
a number. -/
theorem fetch_firsts_iff (compiled : compile w.registry w.dialect p = .ok query)
    (active : w.unit.checkActive "execute" = .ok ()) (distinct : p.distinct = true)
    (fetching : ∃ j ∈ p.joins, j.fetch = true)
    (materialized : Hydration.records query.layout rows.rows ⟨w.heap, w.identity, [], []⟩ = .ok records h)
    (decoded : records.mapM decode = .ok all) :
    ∃ results after, fetch decode p (w.answering rows) = .ok results after ∧
      ((Record.firsts records).mapM decode = .ok results ↔
        ∀ r ∈ records, ∀ s ∈ records, r.Same s → ¬Cell.Patterns r.distinctKey s.distinctKey) := by
  obtain ⟨found, k, run, registered⟩ := bind_ok materialized
  obtain ⟨_, _, _, registered⟩ := bind_ok registered
  obtain ⟨_, _, _, registered⟩ := bind_ok registered
  cases registered
  obtain ⟨j, member, fetched⟩ := fetching
  have told : (p.distinct && !query.layout.fetches.isEmpty) = true := by
    simp [distinct, compile_fetching compiled member fetched]
  have coarser (r s : Record) (same : r.distinctKey = s.distinctKey) :
      r.distinctKey.map Cell.canonical = s.distinctKey.map Cell.canonical := by rw [same]
  -- what is told apart by equality is told apart by the keys
  have fewer : (Record.firsts records).Sublist (Record.distinct records) := by
    rw [Record.firsts_eq, Record.distinct_eq, ← firstsBy_firstsBy coarser]
    exact firstsBy_sublist _ _
  have kept : (Record.distinct records).Sublist records := by
    rw [Record.distinct_eq]
    exact firstsBy_sublist _ _
  obtain ⟨results, read⟩ := exists_mapM_of_sublist kept decoded
  obtain ⟨after, answered, _⟩ := fetch_answering decode rows compiled active run (by rw [if_pos told]; exact read)
  refine ⟨results, after, answered, ?_⟩
  have same : (Record.firsts records).mapM decode = .ok results ↔ Record.firsts records = Record.distinct records := by
    refine ⟨fun own => fewer.eq_of_length ?_, fun equal => equal ▸ read⟩
    rw [length_of_mapM own, length_of_mapM read]
  rw [same, Record.firsts_eq, Record.distinct_eq, firstsBy_eq_iff coarser]
  refine forall₂_congr fun r _ => forall₂_congr fun s _ => ?_
  rw [← Record.same_iff_canonical]
  refine forall_congr' fun equal => ?_
  rw [Cell.patterns_iff equal, not_not]

namespace Scores

open Hydration (teamEntity membersAssociation)

def memberEntity : Entity :=
  ⟨"player", "players", [⟨"id", "id", .integer⟩, ⟨"score", "score", .float⟩], ⟨0, by decide⟩,
    [⟨"team", "player", "team", "teams", .one, "team_id", "id", none, .integer⟩]⟩

/-- The teams with the scores of their players, who are fetched. -/
def plan : Plan :=
  { Plan.ofEntity ⟨"team", teamEntity⟩ with
    projections := [.entity ⟨"team", teamEntity⟩, .expr (.path ⟨"player", "player", [], "score", "score", .float⟩)]
    joins := [⟨.inner, ⟨"player", memberEntity⟩, some ⟨⟨"team", teamEntity⟩, [], membersAssociation, memberEntity⟩, none,
      true⟩]
    distinct := true }

def layout : Layout := .ofProjections plan.projections [⟨"team", membersAssociation, ⟨"player", memberEntity⟩⟩]

def work : Work := .begun ⟨[teamEntity, memberEntity]⟩ .postgres

/-- Two players of one team. -/
def answer (first second : Double) : RowSet := ⟨["id", "score", "id", "score", "team_id"],
  [[.int 1, .float first, .int 10, .float first, .int 1], [.int 1, .float second, .int 11, .float second, .int 1]]⟩

def record (score : Double) : Record := .tuple ⟨plan.projections, [.entity (some ⟨0⟩), .value (.float score)]⟩

theorem compile_plan : ∃ statement, compile work.registry work.dialect plan = .ok ⟨statement, layout⟩ := ⟨_, rfl⟩

theorem recordsOf_answer (first second : Double) :
    ∃ h, Hydration.recordsOf layout (answer first second).rows ⟨work.heap, work.identity, [], []⟩ =
      .ok [record first, record second] h := ⟨_, rfl⟩

end Scores

/-- Players of one team with one score are one record. -/
theorem fetch_firsts_iff_scores : ∃ after, fetch .ok Scores.plan (Scores.work.answering (Scores.answer ⟨0⟩ ⟨0⟩)) =
    .ok [Scores.record ⟨0⟩] after := by
  obtain ⟨statement, compiled⟩ := Scores.compile_plan
  obtain ⟨h, run⟩ := Scores.recordsOf_answer ⟨0⟩ ⟨0⟩
  have materialized := Hydration.records_run (Hydration.staged_nil _ _ _) run
  have decoded : [Scores.record ⟨0⟩, Scores.record ⟨0⟩].mapM (.ok : Record → Except Error Record) =
      .ok [Scores.record ⟨0⟩, Scores.record ⟨0⟩] := rfl
  obtain ⟨results, after, answered, first⟩ :=
    fetch_firsts_iff compiled rfl rfl ⟨_, List.mem_singleton.mpr rfl, rfl⟩ materialized decoded
  have kept := first.mpr fun r left s right same => by
    simp only [List.mem_cons, List.not_mem_nil, or_false, or_self] at left right
    rw [Cell.patterns_iff same, left, right, not_not]
  have one : results = [Scores.record ⟨0⟩] := (Except.ok.inj kept).symm
  exact ⟨after, one ▸ answered⟩

/-- Zero and its opposite are equal, and both are given. -/
theorem fetch_keeps_both_zeros : ∃ after,
    fetch .ok Scores.plan (Scores.work.answering (Scores.answer ⟨0⟩ ⟨0x8000000000000000⟩)) =
      .ok [Scores.record ⟨0⟩, Scores.record ⟨0x8000000000000000⟩] after ∧
    (Scores.record ⟨0⟩).Same (Scores.record ⟨0x8000000000000000⟩) := by
  obtain ⟨statement, compiled⟩ := Scores.compile_plan
  obtain ⟨h, run⟩ := Scores.recordsOf_answer ⟨0⟩ ⟨0x8000000000000000⟩
  obtain ⟨after, answered, _⟩ := fetch_answering .ok (Scores.answer ⟨0⟩ ⟨0x8000000000000000⟩) compiled rfl run rfl
  exact ⟨after, answered, by decide⟩

end Session

end EntityMapper
