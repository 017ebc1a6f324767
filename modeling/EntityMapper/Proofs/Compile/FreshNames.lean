import Mathlib.Data.Finset.Card
import EntityMapper.Proofs.Compile.Scopes

namespace EntityMapper.Scope

/-- The alias stands in the scope or in one around it. -/
def Declared (outer : List Scope) (s : Scope) (name : String) : Prop :=
  s.has name = true ∨ outer.any (·.has name) = true

instance (outer : List Scope) (s : Scope) (name : String) : Decidable (Declared outer s name) :=
  inferInstanceAs (Decidable (_ ∨ _))

theorem declared_iff {outer : List Scope} {s : Scope} {name : String} : Declared outer s name ↔ name ∈ s.taken outer := by
  rw [Declared, has_iff, any_has, mem_taken]

/-- The declared names other than those that are numbered below a number. -/
def untried (outer : List Scope) (s : Scope) (base : String) (n : Nat) : Finset String :=
  (s.taken outer).toFinset \ (Finset.range n).image fun m => s!"{base}_{m}"

/-- Each number that is passed leaves one name less, as no two numbers make the same name. -/
theorem untried_lt {outer : List Scope} {s : Scope} {base : String} {n : Nat}
    (passed : Declared outer s s!"{base}_{n}") :
    (untried outer s base (n + 1)).card < (untried outer s base n).card := by
  refine Finset.card_lt_card ((Finset.ssubset_iff_of_subset ?_).mpr ⟨s!"{base}_{n}", ?_, ?_⟩)
  · exact Finset.sdiff_subset_sdiff Finset.Subset.rfl (Finset.image_subset_image (Finset.range_mono n.le_succ))
  · rw [untried, Finset.mem_sdiff, List.mem_toFinset, Finset.mem_image]
    refine ⟨declared_iff.mp passed, ?_⟩
    rintro ⟨m, below, same⟩
    exact absurd (numbered_injective base same) (Finset.mem_range.mp below).ne
  · intro member
    exact (Finset.mem_sdiff.mp member).2 (Finset.mem_image_of_mem _ (Finset.self_mem_range_succ n))

/-- The search for a free name, one number after the other. -/
def search (outer : List Scope) (s : Scope) (base : String) (n : Nat) : String :=
  if Declared outer s s!"{base}_{n}" then search outer s base (n + 1) else s!"{base}_{n}"
termination_by (untried outer s base n).card
decreasing_by exact untried_lt (by assumption)

variable {outer : List Scope} {s : Scope} {base : String}

/-- The least number from another on that makes the name free. -/
structure Least (outer : List Scope) (s : Scope) (base : String) (start n : Nat) : Prop where
  le : start ≤ n
  free : ¬Declared outer s s!"{base}_{n}"
  before : ∀ m, start ≤ m → m < n → Declared outer s s!"{base}_{m}"

theorem Least.unique {start m n : Nat} (first : Least outer s base start m) (second : Least outer s base start n) :
    m = n := by
  by_contra apart
  rcases Nat.lt_or_gt_of_ne apart with below | above
  · exact first.free (second.before m first.le below)
  · exact second.free (first.before n second.le above)

theorem search_least (outer : List Scope) (s : Scope) (base : String) (start : Nat) :
    ∃ n, Least outer s base start n ∧ search outer s base start = s!"{base}_{n}" := by
  fun_induction search outer s base start with
  | case1 start passed ih =>
    obtain ⟨n, least, found⟩ := ih
    refine ⟨n, ⟨(Nat.le_succ start).trans least.le, least.free, fun m from' below => ?_⟩, found⟩
    rcases from'.eq_or_lt with rfl | later
    · exact passed
    · exact least.before m later below
  | case2 start free =>
    exact ⟨start, ⟨le_rfl, free, fun m from' below => absurd below (Nat.not_lt.mpr from')⟩, rfl⟩

/-- Among as many numbers as there are names, the first that makes a free name is taken. -/
theorem freshName_of_declared (declared : Declared outer s base) :
    ∃ n, Least outer s base 1 n ∧ n ≤ (s.taken outer).length ∧ freshName (s.taken outer) base = s!"{base}_{n}" := by
  have fresh := freshName_notMem (s.taken outer) base
  rw [freshName, if_pos (List.contains_iff_mem.mpr (declared_iff.mp declared)), List.find?_map] at fresh ⊢
  cases found : (List.range (s.taken outer).length).find?
      ((fun name => !(s.taken outer).contains name) ∘ fun n => s!"{base}_{n + 1}") with
  | none =>
    rw [found] at fresh
    exact absurd (declared_iff.mp declared) fresh
  | some n =>
    obtain ⟨free, bound, before⟩ := List.find?_range_eq_some.mp found
    refine ⟨n + 1, ⟨Nat.le_add_left 1 n, ?_, fun m from' below => ?_⟩, List.mem_range.mp bound, rfl⟩
    · rw [declared_iff]
      simpa using free
    · obtain ⟨k, rfl⟩ := Nat.exists_eq_add_of_le' from'
      rw [declared_iff]
      simpa using before k (Nat.lt_of_succ_lt_succ below)

/-- For any scope in any scopes and for any name, the name of a generated alias is found and declared nowhere. It is the
given name if that is free, and otherwise the one that the search from one upwards ends with: the name of the least
number that makes it free. The search counts no further than there are declared names. -/
theorem freshName_least (outer : List Scope) (s : Scope) (base : String) :
    ¬Declared outer s (freshName (s.taken outer) base) ∧
      (¬Declared outer s base → freshName (s.taken outer) base = base) ∧
      (Declared outer s base → freshName (s.taken outer) base = search outer s base 1 ∧
        ∃ n, 1 ≤ n ∧ n ≤ (s.taken outer).length ∧ freshName (s.taken outer) base = s!"{base}_{n}" ∧
          ∀ m, 1 ≤ m → m < n → Declared outer s s!"{base}_{m}") := by
  refine ⟨fun declared => freshName_notMem _ _ (declared_iff.mp declared), fun free => ?_, fun declared => ?_⟩
  · exact if_neg fun present => free (declared_iff.mpr (List.contains_iff_mem.mp present))
  · obtain ⟨n, least, bound, fresh⟩ := freshName_of_declared declared
    obtain ⟨m, first, found⟩ := search_least outer s base 1
    refine ⟨?_, n, least.le, bound, fresh, least.before⟩
    rw [fresh, found, least.unique first]

end EntityMapper.Scope
