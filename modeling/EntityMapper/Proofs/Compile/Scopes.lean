import Mathlib.Data.List.Nodup
import Mathlib.Data.List.Perm.Subperm
import EntityMapper.Proofs.Action
import EntityMapper.Proofs.Sql.Tables

namespace EntityMapper

/-- The alias and the name of the association that a table is reached by. -/
def FromTable.pair? (t : FromTable) : Option (String × String) := t.link.map fun (owner, a) => (owner, a.name)

/-- How a path gets to a table from its owner's alias. -/
def FromTable.hop? (t : FromTable) : Option ((String × String) × String) := t.pair?.map (·, t.name)

def GeneratedJoin.pair (j : GeneratedJoin) : String × String := (j.owner, j.association.name)

/-- The tables that a query names itself: its sources and the targets of its joins. -/
def Plan.declared (p : Plan) : List FromTable :=
  p.sources.map .ofSource ++ p.joins.map fun j => .ofJoin j.target j.link

namespace Scope

theorem has_iff {s : Scope} {name : String} : s.has name = true ↔ name ∈ s.names := List.contains_iff_mem

theorem any_has {outer : List Scope} {name : String} :
    outer.any (·.has name) = true ↔ ∃ o ∈ outer, name ∈ o.names := by
  simp only [List.any_eq_true, has_iff]

theorem mem_taken {outer : List Scope} {s : Scope} {name : String} :
    name ∈ s.taken outer ↔ name ∈ s.names ∨ ∃ o ∈ outer, name ∈ o.names := by
  rw [taken, List.mem_append, List.mem_flatMap]

theorem numbered_injective (base : String) : Function.Injective fun n : Nat => s!"{base}_{n}" := by
  intro m n same
  have shown : m.repr = n.repr := (String.append_right_inj (base ++ "_")).mp same
  exact repr_injective shown

theorem numbered_ne (base : String) (n : Nat) : s!"{base}_{n + 1}" ≠ base := by
  intro same
  have length := congrArg String.length same
  simp only [String.length_append] at length
  have mark : (toString "_").length = 1 := rfl
  have whole : (toString base).length = base.length := rfl
  omega

/-- More numbers are tried than there are names, so one of them is free. -/
theorem freshName_notMem (taken : List String) (base : String) : freshName taken base ∉ taken := by
  unfold freshName
  split
  case isTrue present =>
    cases found : ((List.range taken.length).map fun n => s!"{base}_{n + 1}").find? fun name => !taken.contains name with
    | some name =>
      have free := List.find?_some found
      simpa using free
    | none =>
      have all : ∀ name ∈ (List.range taken.length).map fun n => s!"{base}_{n + 1}", name ∈ taken := by
        intro name member
        simpa using List.find?_eq_none.mp found name member
      have distinct : (base :: (List.range taken.length).map fun n => s!"{base}_{n + 1}").Nodup := by
        have apart := (numbered_injective base).comp fun m n (same : m + 1 = n + 1) => Nat.succ.inj same
        refine List.nodup_cons.mpr ⟨fun member => ?_, List.nodup_range.map apart⟩
        obtain ⟨n, _, same⟩ := List.mem_map.mp member
        exact numbered_ne base n same
      have subset : base :: ((List.range taken.length).map fun n => s!"{base}_{n + 1}") ⊆ taken :=
        List.cons_subset.mpr ⟨List.contains_iff_mem.mp present, all⟩
      have length := (distinct.subperm subset).length_le
      rw [List.length_cons, List.length_map, List.length_range] at length
      omega
  case isFalse absent => exact fun member => absent (List.contains_iff_mem.mpr member)

/-- A table is added to a scope: its alias is new, also to the scopes around it, and it is joined to an alias of the
scope. -/
structure Adds (outer : List Scope) (s : Scope) (t : FromTable) (after : Scope) : Prop where
  free : t.name ∉ s.names
  apart : ∀ o ∈ outer, t.name ∉ o.names
  linked : ∀ owner a, t.link = some (owner, a) → owner ∈ s.names
  aliases : after.aliases = s.aliases ++ [t.source]
  hops : after.hops = t.hop?.toList ++ s.hops

/-- A scope holds the aliases of tables that were added to it one by one. -/
structure Introduces (outer : List Scope) (s : Scope) (tables : List FromTable) : Prop where
  aliases : s.aliases = tables.map (·.source)
  hops : s.hops = (tables.filterMap FromTable.hop?).reverse
  distinct : s.names.Nodup
  apart : ∀ o ∈ outer, ∀ name ∈ o.names, name ∉ s.names
  ordered : ∀ before t after, tables = before ++ t :: after → ∀ owner a, t.link = some (owner, a) →
    owner ∈ before.map FromTable.name

theorem introduces_empty (outer : List Scope) : empty.Introduces outer [] := by
  refine ⟨rfl, rfl, List.nodup_nil, fun _ _ _ _ => List.not_mem_nil, fun before t after split => ?_⟩
  cases List.append_eq_nil_iff.mp split.symm with
  | intro _ none => cases none

variable {outer : List Scope} {s after : Scope} {tables : List FromTable} {t : FromTable}

theorem Introduces.names (holds : s.Introduces outer tables) : s.names = tables.map FromTable.name := by
  rw [Scope.names, holds.aliases, List.map_map]
  rfl

theorem Adds.names (added : Adds outer s t after) : after.names = s.names ++ [t.name] := by
  rw [Scope.names, added.aliases, List.map_append]
  rfl

theorem Introduces.add (holds : s.Introduces outer tables) (added : Adds outer s t after) :
    after.Introduces outer (tables ++ [t]) := by
  refine ⟨?_, ?_, ?_, ?_, ?_⟩
  · rw [added.aliases, holds.aliases, List.map_append]
    rfl
  · rw [added.hops, holds.hops, List.filterMap_append, List.reverse_append]
    cases own : t.hop? with
    | none => simp [own]
    | some hop => simp [own]
  · rw [added.names]
    exact List.nodup_append.mpr ⟨holds.distinct, List.nodup_singleton _, fun name member other single same =>
      added.free (List.mem_singleton.mp single ▸ same ▸ member)⟩
  · intro o inside name member
    rw [added.names, List.mem_append, List.mem_singleton]
    rintro (old | rfl)
    · exact holds.apart o inside name member old
    · exact added.apart o inside member
  · intro before u rest split owner a link
    rcases List.eq_nil_or_concat rest with rfl | ⟨middle, last, rfl⟩
    · obtain ⟨rfl, same⟩ := List.append_inj' split rfl
      cases same
      rw [← holds.names]
      exact added.linked owner a link
    · rw [List.concat_eq_append, ← List.cons_append, ← List.append_assoc] at split
      obtain ⟨earlier, _⟩ := List.append_inj' split rfl
      exact holds.ordered before u middle earlier owner a link

theorem declare_adds {a : Alias} (run : declare outer s a = .ok after) :
    Adds outer s (.ofSource a) after ∧ after.generated = s.generated := by
  unfold declare at run
  split at run
  · cases run
  case isFalse free =>
    cases run
    simp only [Bool.or_eq_true, has_iff, any_has, not_or, not_exists, not_and] at free
    exact ⟨⟨free.1, free.2, fun _ _ unlinked => (nomatch unlinked), rfl, rfl⟩, rfl⟩

/-- A join along an association starts at an alias that is declared before it and ends at the associated entity. -/
theorem declareJoin_adds {j : Join} (run : declareJoin outer s j = .ok after) :
    Adds outer s (.ofJoin j.target j.link) after ∧ after.generated = s.generated ∧
      ∀ path, j.association = some path → path.leading = [] ∧ path.target.name = j.target.entity.name := by
  unfold declareJoin at run
  split at run
  case h_1 path follows =>
    dsimp only at run
    split at run
    · cases run
    split at run
    · cases run
    split at run
    · cases run
    rename_i single declared leads
    obtain ⟨middle, added, run⟩ := Except.bind_eq_ok.mp run
    cases run
    obtain ⟨added, generated⟩ := declare_adds added
    have link : j.link = some (path.owner.name, path.association) := by rw [Join.link, follows]; rfl
    refine ⟨⟨added.free, added.apart, ?_, added.aliases, ?_⟩, generated, ?_⟩
    · intro owner a same
      rw [FromTable.ofJoin, link] at same
      cases same
      exact has_iff.mp (by simpa using declared)
    · have hops : middle.hops = s.hops := added.hops
      rw [hops, link]
      rfl
    · intro other same
      cases follows.symm.trans same
      exact ⟨by simpa using single, by simpa using leads⟩
  case h_2 none =>
    have link : j.link = .none := by rw [Join.link, none]; rfl
    split at run
    · cases run
    obtain ⟨added, generated⟩ := declare_adds run
    rw [link]
    exact ⟨added, generated, fun path some => by rw [none] at some; cases some⟩

/-- The aliases of the sources and of the joins are declared one by one, before any join is generated. -/
theorem introduces_declared {p : Plan} {sourced joined : Scope}
    (sources : p.sources.foldlM (declare outer) empty = .ok sourced)
    (joins : p.joins.foldlM (declareJoin outer) sourced = .ok joined) :
    joined.Introduces outer p.declared ∧ joined.generated = [] ∧
      ∀ j ∈ p.joins, ∀ path, j.association = some path →
        path.leading = [] ∧ path.target.name = j.target.entity.name := by
  have first : ∀ (as : List Alias) (s : Scope) (tables : List FromTable), s.Introduces outer tables →
      s.generated = [] → as.foldlM (declare outer) s = .ok sourced →
      sourced.Introduces outer (tables ++ as.map .ofSource) ∧ sourced.generated = [] := by
    intro as
    induction as with
    | nil =>
      intro s tables holds none run
      cases run
      rw [List.map_nil, List.append_nil]
      exact ⟨holds, none⟩
    | cons a rest ih =>
      intro s tables holds none run
      rw [List.foldlM_cons] at run
      obtain ⟨next, declared, run⟩ := Except.bind_eq_ok.mp run
      obtain ⟨added, generated⟩ := declare_adds declared
      have later := ih next _ (holds.add added) (generated.trans none) run
      rw [List.append_assoc] at later
      exact later
  have second : ∀ (js : List Join) (s : Scope) (tables : List FromTable), s.Introduces outer tables →
      s.generated = [] → js.foldlM (declareJoin outer) s = .ok joined →
      joined.Introduces outer (tables ++ js.map fun j => .ofJoin j.target j.link) ∧ joined.generated = [] ∧
        ∀ j ∈ js, ∀ path, j.association = some path → path.leading = [] ∧ path.target.name = j.target.entity.name := by
    intro js
    induction js with
    | nil =>
      intro s tables holds none run
      cases run
      rw [List.map_nil, List.append_nil]
      exact ⟨holds, none, fun _ absent => absurd absent List.not_mem_nil⟩
    | cons j rest ih =>
      intro s tables holds none run
      rw [List.foldlM_cons] at run
      obtain ⟨next, declared, run⟩ := Except.bind_eq_ok.mp run
      obtain ⟨added, generated, leads⟩ := declareJoin_adds declared
      obtain ⟨holds, none, others⟩ := ih next _ (holds.add added) (generated.trans none) run
      rw [List.append_assoc] at holds
      exact ⟨holds, none, List.forall_mem_cons.mpr ⟨leads, others⟩⟩
  obtain ⟨holds, none⟩ := first p.sources empty [] (introduces_empty outer) rfl sources
  exact second p.joins sourced _ holds none joins

theorem Introduces.joined (holds : s.Introduces outer tables) {owner association next : String}
    (found : s.hop? owner association = some next) :
    ∃ t ∈ tables, ∃ a, t.link = some (owner, a) ∧ a.name = association ∧ t.name = next := by
  have member : ((owner, association), next) ∈ s.hops := by
    obtain ⟨before, after, split, _⟩ := List.lookup_eq_some_iff.mp found
    rw [split]
    exact List.mem_append_right before List.mem_cons_self
  rw [holds.hops, List.mem_reverse] at member
  obtain ⟨t, inside, hop⟩ := List.mem_filterMap.mp member
  refine ⟨t, inside, ?_⟩
  unfold FromTable.hop? FromTable.pair? at hop
  cases link : t.link with
  | none =>
    rw [link] at hop
    cases hop
  | some link =>
    rw [link] at hop
    cases hop
    exact ⟨_, rfl, rfl, rfl⟩

theorem Introduces.mem_of_hop? (holds : s.Introduces outer tables) {owner association next : String}
    (found : s.hop? owner association = some next) : next ∈ s.names := by
  obtain ⟨t, inside, _, _, _, rfl⟩ := holds.joined found
  rw [holds.names]
  exact List.mem_map_of_mem inside

/-- Joins are generated one by one: each for an association that leads nowhere yet from an alias of the scope, and under
a name that no open scope has. -/
inductive Generates (registry : Registry) (outer : List Scope) (s : Scope) : List GeneratedJoin → Scope → Prop
  | start : Generates registry outer s [] s
  | next {js : List GeneratedJoin} {t : Scope} {current name : String} {hop : Association} {target : Entity} :
      Generates registry outer s js t → current ∈ t.names → t.hop? current hop.name = none →
      registry.describe hop.target = .ok target → name ∉ t.taken outer →
      Generates registry outer s (js ++ [⟨current, hop, ⟨name, target⟩⟩]) (t.generate current hop ⟨name, target⟩)

variable {registry : Registry} {js : List GeneratedJoin}

theorem Generates.trans {ks : List GeneratedJoin} {u : Scope} (first : Generates registry outer s js after)
    (second : Generates registry outer after ks u) : Generates registry outer s (js ++ ks) u := by
  induction second with
  | start => rwa [List.append_nil]
  | next previous source uncovered described fresh ih =>
    rw [← List.append_assoc]
    exact .next ih source uncovered described fresh

theorem Generates.generated (grown : Generates registry outer s js after) :
    after.generated = s.generated ++ js := by
  induction grown with
  | start => rw [List.append_nil]
  | next _ _ _ _ _ ih => rw [generate, ih, List.append_assoc]

theorem generate_adds {current name : String} {hop : Association} {target : Entity} (source : current ∈ s.names)
    (fresh : name ∉ s.taken outer) :
    Adds outer s (.ofGenerated ⟨current, hop, ⟨name, target⟩⟩) (s.generate current hop ⟨name, target⟩) := by
  rw [mem_taken, not_or] at fresh
  refine ⟨fresh.1, fun o inside member => fresh.2 ⟨o, inside, member⟩, fun owner a link => ?_, rfl, rfl⟩
  cases link
  exact source

theorem Generates.introduces (grown : Generates registry outer s js after) (holds : s.Introduces outer tables) :
    after.Introduces outer (tables ++ js.map .ofGenerated) := by
  induction grown with
  | start => rwa [List.map_nil, List.append_nil]
  | next _ source _ _ fresh ih =>
    rw [List.map_append, ← List.append_assoc]
    exact ih.add (generate_adds source fresh)

/-- What an association leads to is never changed by a generated join. -/
theorem Generates.hop? (grown : Generates registry outer s js after) {owner association next : String}
    (found : s.hop? owner association = some next) : after.hop? owner association = some next := by
  induction grown with
  | start => exact found
  | @next _ t current name hop target _ _ uncovered _ _ ih =>
    have different : ((owner, association) == (current, hop.name)) = false := by
      rw [beq_eq_false_iff_ne]
      rintro same
      cases same
      rw [ih] at uncovered
      cases uncovered
    rw [Scope.hop?, generate, List.lookup_cons, different]
    exact ih

theorem Generates.subset (grown : Generates registry outer s js after) : s.aliases <+: after.aliases := by
  induction grown with
  | start => exact List.prefix_rfl
  | next _ _ _ _ _ ih => exact ih.trans (List.prefix_append _ _)

theorem Generates.mem_names (grown : Generates registry outer s js after) {name : String} (member : name ∈ s.names) :
    name ∈ after.names :=
  (grown.subset.map _).subset member

theorem Generates.find? (grown : Generates registry outer s js after) {name : String} {a : Alias}
    (found : s.find? name = some a) : after.find? name = some a := by
  obtain ⟨more, aliases⟩ := grown.subset
  rw [Scope.find?, ← aliases, List.find?_append, ← Scope.find?, found, Option.some_or]

/-- A join is generated for each alias and association once, and for none that a join covers already. -/
theorem Generates.pairs (grown : Generates registry outer s js after) :
    (js.map GeneratedJoin.pair).Nodup ∧ (∀ j ∈ js, s.hop? j.owner j.association.name = none) ∧
      ∀ j ∈ js, ∃ name, after.hop? j.owner j.association.name = some name := by
  induction grown with
  | start => exact ⟨List.nodup_nil, fun _ none => absurd none List.not_mem_nil, fun _ none => absurd none List.not_mem_nil⟩
  | @next js t current name hop target previous source uncovered described fresh ih =>
    obtain ⟨distinct, free, taken⟩ := ih
    have start : s.hop? current hop.name = none := by
      cases found : s.hop? current hop.name with
      | none => rfl
      | some next =>
        rw [previous.hop? found] at uncovered
        cases uncovered
    refine ⟨?_, ?_, ?_⟩
    · rw [List.map_append]
      refine List.nodup_append.mpr ⟨distinct, List.nodup_singleton _, fun pair member other single same => ?_⟩
      obtain ⟨j, inside, rfl⟩ := List.mem_map.mp member
      obtain ⟨owner, association⟩ := Prod.mk.inj (same.trans (List.mem_singleton.mp single))
      obtain ⟨next, found⟩ := taken j inside
      rw [owner, association, uncovered] at found
      cases found
    · exact List.forall_mem_append.mpr ⟨free, List.forall_mem_singleton.mpr start⟩
    · have step : Generates registry outer t _ _ := .next .start source uncovered described fresh
      refine List.forall_mem_append.mpr ⟨fun j inside => ?_, List.forall_mem_singleton.mpr ⟨name, ?_⟩⟩
      · obtain ⟨next, found⟩ := taken j inside
        exact ⟨next, step.hop? found⟩
      · rw [Scope.hop?, generate, List.lookup_cons_self]

theorem Generates.targets (grown : Generates registry outer s js after) :
    ∀ j ∈ js, registry.describe j.association.target = .ok j.target.entity := by
  induction grown with
  | start => exact fun _ none => absurd none List.not_mem_nil
  | next _ _ _ described _ ih => exact List.forall_mem_append.mpr ⟨ih, List.forall_mem_singleton.mpr described⟩

theorem Generates.follow (grown : Generates registry outer s js after) (path : Path) {hops : List Association}
    {current last : String} (found : s.follow path hops current = .ok last) :
    after.follow path hops current = .ok last := by
  induction hops generalizing current with
  | nil => exact found
  | cons hop rest ih =>
    unfold Scope.follow at found ⊢
    cases reached : s.hop? current hop.name with
    | none =>
      rw [reached] at found
      cases found
    | some next =>
      rw [reached] at found
      rw [grown.hop? reached]
      exact ih found

/-- When the associations of a path are covered, the path can be followed. -/
theorem cover_generates {path : Path} {inCondition : Bool} {hops : List Association} {current : String}
    (holds : s.Introduces outer tables) (source : current ∈ s.names)
    (run : cover registry outer path inCondition hops current s = .ok after) :
    ∃ js last, Generates registry outer s js after ∧ after.follow path hops current = .ok last := by
  induction hops generalizing current s tables with
  | nil =>
    cases run
    exact ⟨[], current, .start, rfl⟩
  | cons hop rest ih =>
    unfold cover at run
    cases reached : s.hop? current hop.name with
    | some next =>
      rw [reached] at run
      obtain ⟨js, last, grown, followed⟩ := ih holds (holds.mem_of_hop? reached) run
      refine ⟨js, last, grown, ?_⟩
      rw [Scope.follow, grown.hop? reached]
      exact followed
    | none =>
      rw [reached] at run
      dsimp only at run
      split at run
      · cases run
      split at run
      · cases run
      obtain ⟨target, described, run⟩ := Except.bind_eq_ok.mp run
      have fresh := freshName_notMem (s.taken outer) s!"{current}_{hop.name}"
      generalize freshName (s.taken outer) s!"{current}_{hop.name}" = name at run fresh
      have step : Generates registry outer s _ _ := .next .start source reached described fresh
      have added : Adds outer s _ (s.generate current hop ⟨name, target⟩) := generate_adds source fresh
      have own : name ∈ (s.generate current hop ⟨name, target⟩).names := by
        rw [added.names]
        exact List.mem_append_right _ List.mem_cons_self
      obtain ⟨js, last, grown, followed⟩ := ih (holds.add added) own run
      refine ⟨_, last, step.trans grown, ?_⟩
      have atHop : (s.generate current hop ⟨name, target⟩).hop? current hop.name = some name := by
        rw [Scope.hop?, generate, List.lookup_cons_self]
      rw [Scope.follow, grown.hop? atHop]
      exact followed

theorem coverPath_generates {path : Path} {inCondition : Bool} (holds : s.Introduces outer tables)
    (run : coverPath registry outer s path inCondition = .ok after) :
    ∃ js, Generates registry outer s js after ∧
      (path.hops ≠ [] → path.root ∈ s.names ∧ ∃ last, after.follow path path.hops path.root = .ok last) := by
  unfold coverPath at run
  split at run
  case isTrue direct =>
    cases run
    exact ⟨[], .start, fun navigates => absurd (List.isEmpty_iff.mp direct) navigates⟩
  case isFalse =>
    split at run
    case isTrue declared =>
      have source := has_iff.mp declared
      obtain ⟨js, last, grown, followed⟩ := cover_generates holds source run
      exact ⟨js, grown, fun _ => ⟨source, last, followed⟩⟩
    case isFalse =>
      split at run
      · cases run
      · cases run

/-- A path that navigates starts at an alias of the scope, and its associations lead on from there. -/
def Follows (s : Scope) (path : Path) : Prop :=
  path.hops ≠ [] → path.root ∈ s.names ∧ ∃ last, s.follow path path.hops path.root = .ok last

theorem Follows.grown {path : Path} (follows : s.Follows path) (grown : Generates registry outer s js after) :
    after.Follows path := by
  intro navigates
  obtain ⟨root, last, followed⟩ := follows navigates
  exact ⟨grown.mem_names root, last, grown.follow path followed⟩

theorem coverPaths_generates {uses : List (Path × Bool)} (holds : s.Introduces outer tables)
    (run : uses.foldlM (fun s (path, inCondition) => coverPath registry outer s path inCondition) s = .ok after) :
    ∃ js, Generates registry outer s js after ∧ ∀ use ∈ uses, after.Follows use.1 := by
  induction uses generalizing s tables with
  | nil =>
    cases run
    exact ⟨[], .start, fun _ none => absurd none List.not_mem_nil⟩
  | cons use rest ih =>
    rw [List.foldlM_cons] at run
    obtain ⟨next, covered, run⟩ := Except.bind_eq_ok.mp run
    obtain ⟨js, first, follows⟩ := coverPath_generates holds covered
    obtain ⟨ks, later, others⟩ := ih (first.introduces holds) run
    have own : next.Follows use.1 := fun navigates =>
      ⟨first.mem_names (follows navigates).1, (follows navigates).2⟩
    exact ⟨js ++ ks, first.trans later, List.forall_mem_cons.mpr ⟨own.grown later, others⟩⟩

/-- What the scope of a query holds: its sources, the targets of its joins and those of the joins that are generated for
its paths. -/
structure Opens (registry : Registry) (outer : List Scope) (p : Plan) (s : Scope) : Prop where
  introduces : s.Introduces outer (p.declared ++ s.generated.map .ofGenerated)
  once : (s.generated.map GeneratedJoin.pair).Nodup
  uncovered : ∀ j ∈ s.generated, ∀ t ∈ p.declared, t.pair? ≠ some j.pair
  targets : ∀ j ∈ s.generated, registry.describe j.association.target = .ok j.target.entity
  joins : ∀ j ∈ p.joins, ∀ path, j.association = some path →
    path.leading = [] ∧ path.target.name = j.target.entity.name
  follows : ∀ use ∈ p.pathUses, s.Follows use.1

theorem lookup_eq_none_of_pair? {pair : String × String} (holds : s.Introduces outer tables)
    (absent : s.hop? pair.1 pair.2 = none) : ∀ t ∈ tables, t.pair? ≠ some pair := by
  intro t inside same
  have hop : t.hop? = some (pair, t.name) := by rw [FromTable.hop?, same]; rfl
  have member : (pair, t.name) ∈ s.hops := by
    rw [holds.hops, List.mem_reverse]
    exact List.mem_filterMap.mpr ⟨t, inside, hop⟩
  have none := List.lookup_eq_none_iff.mp absent _ member
  simp at none

theorem ofPlan_opens {p : Plan} (run : ofPlan registry outer p = .ok s) : s.Opens registry outer p := by
  unfold ofPlan at run
  split at run
  · cases run
  obtain ⟨sourced, sources, run⟩ := Except.bind_eq_ok.mp run
  obtain ⟨joined, declared, run⟩ := Except.bind_eq_ok.mp run
  obtain ⟨holds, empty, joins⟩ := introduces_declared sources declared
  obtain ⟨js, grown, follows⟩ := coverPaths_generates holds run
  have generated : s.generated = js := by rw [grown.generated, empty, List.nil_append]
  obtain ⟨distinct, free, _⟩ := grown.pairs
  rw [← generated] at grown distinct free
  exact ⟨grown.introduces holds, distinct,
    fun j inside => lookup_eq_none_of_pair? holds (free j inside), grown.targets, joins, follows⟩

end Scope

end EntityMapper
