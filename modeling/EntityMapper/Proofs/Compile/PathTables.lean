import EntityMapper.Proofs.Compile.Refusals

namespace EntityMapper

namespace FromTable

/-- The table is the one that stores an entity, and its alias stands for that entity. -/
def StandsFor (registry : Registry) (t : FromTable) (entity : String) : Prop :=
  registry.describe entity = .ok t.source.entity ∧ t.table = t.source.entity.table

/-- The table is joined as an association relates its rows: by the same columns and to its target. -/
def Serves (registry : Registry) (hop : Association) (t : FromTable) : Prop :=
  (∃ owner a, t.link = some (owner, a) ∧ a.ownerColumn = hop.ownerColumn ∧ a.targetColumn = hop.targetColumn) ∧
    t.StandsFor registry hop.target

/-- The table is joined along an association of the entity that its owner's alias stands for. -/
def Faithful (registry : Registry) (tables : List FromTable) (t : FromTable) : Prop :=
  ∀ owner a, t.link = some (owner, a) → t.StandsFor registry a.target ∧
    ∃ o ∈ tables, o.name = owner ∧ o.source.entity.association? a.name = some a

end FromTable

/-- Tables that are joined one behind the other, each along an association of the name of the next hop. -/
inductive Select.Follows (s : Select) (P : Association → FromTable → Prop) :
    FromTable → List Association → FromTable → Prop
  | here {t : FromTable} : Follows s P t [] t
  | hop {t u last : FromTable} {a : Association} {rest : List Association} : u ∈ s.tables →
      u.pair? = some (t.name, a.name) → P a u → Follows s P u rest last → Follows s P t (a :: rest) last

namespace Path

/-- A path is rendered behind the alias of the last of its tables: its root's alias stands for its root entity in one of
the queries, and from there one table is joined for each of its associations. -/
def Reaches (registry : Registry) (chain : List Select) (P : Select → Association → FromTable → Prop) (owner : String)
    (path : Path) (last : FromTable) : Prop :=
  ∃ s ∈ chain, ∃ root ∈ s.tables, root.name = path.root ∧ root.StandsFor registry path.rootEntity ∧
    s.Follows (P s) root path.hops last ∧ last.name = owner

/-- A path is rendered against the right table: each of its tables serves its association, and the last one has its
column. -/
def Right (registry : Registry) (chain : List Select) (owner : String) (path : Path) : Prop :=
  ∃ last, path.Reaches registry chain (fun _ hop t => t.Serves registry hop) owner last ∧
    path.column ∈ last.source.entity.selectedColumns

/-- Of the tables of a path, those whose joins are generated serve its associations. -/
def Served (registry : Registry) (chain : List Select) (owner : String) (path : Path) : Prop :=
  ∃ last, path.Reaches registry chain
    (fun s hop t => t ∈ s.generated.map FromTable.ofGenerated → t.Serves registry hop) owner last

end Path

/-- Whatever a query looks for in an empty list starts, where it follows associations, at an alias that the query
declares itself. -/
def Plan.Rooted (p : Plan) : Prop := ∀ q, p.Contains q → ∀ path ∈ q.sought, path.hops ≠ [] →
  path.root ∈ q.declared.map FromTable.name

variable {registry : Registry}

theorem Select.Follows.mono {s : Select} {P Q : Association → FromTable → Prop} {t last : FromTable}
    {hops : List Association} (follows : s.Follows P t hops last) (weaker : ∀ hop u, P hop u → Q hop u) :
    s.Follows Q t hops last := by
  induction follows with
  | here => exact .here
  | hop member pair holds _ ih => exact .hop member pair (weaker _ _ holds) ih

theorem Select.Follows.mem {s : Select} {P : Association → FromTable → Prop} {t last : FromTable}
    {hops : List Association} (follows : s.Follows P t hops last) (source : t ∈ s.tables) : last ∈ s.tables := by
  induction follows with
  | here => exact source
  | hop member _ _ _ ih => exact ih member

/-- The aliases of tables stand for described entities, and joins follow associations of these. -/
structure Truthful (registry : Registry) (tables : List FromTable) : Prop where
  described : ∀ t ∈ tables, registry.Describes t.source.entity
  faithful : ∀ t ∈ tables, t.Faithful registry tables

theorem FromTable.Faithful.mono {tables more : List FromTable} {t : FromTable} (faithful : t.Faithful registry tables)
    (subset : tables ⊆ more) : t.Faithful registry more := by
  intro owner a link
  obtain ⟨stands, o, member, own⟩ := faithful owner a link
  exact ⟨stands, o, subset member, own⟩

theorem Truthful.add {tables : List FromTable} {t : FromTable} (truthful : Truthful registry tables)
    (described : registry.Describes t.source.entity) (faithful : t.Faithful registry tables) :
    Truthful registry (tables ++ [t]) := by
  refine ⟨List.forall_mem_append.mpr ⟨truthful.described, List.forall_mem_singleton.mpr described⟩, ?_⟩
  exact List.forall_mem_append.mpr
    ⟨fun u member => (truthful.faithful u member).mono (List.subset_append_left _ _),
      List.forall_mem_singleton.mpr (faithful.mono (List.subset_append_left _ _))⟩

/-- What is joined along an association's name from a table is joined along that association. -/
theorem FromTable.Faithful.serves {tables : List FromTable} {t u : FromTable} {hop : Association}
    (faithful : u.Faithful registry tables) (distinct : (tables.map FromTable.name).Nodup) (source : t ∈ tables)
    (pair : u.pair? = some (t.name, hop.name)) (own : t.source.entity.association? hop.name = some hop) :
    u.Serves registry hop := by
  obtain ⟨⟨owner, a⟩, link, same⟩ := Option.map_eq_some_iff.mp pair
  obtain ⟨rfl, named⟩ := Prod.mk.inj same
  obtain ⟨stands, o, member, name, found⟩ := faithful _ a link
  rw [List.inj_on_of_nodup_map distinct member source name, named, own] at found
  cases found
  exact ⟨⟨_, _, link, rfl, rfl⟩, stands⟩

/-- Associations that lead on from a table's entity lead to the entity of the last table that is joined for them. -/
theorem Select.Follows.leads {s : Select} {P : Association → FromTable → Prop} {t last : FromTable}
    {hops : List Association} {e : Entity} (follows : s.Follows P t hops last) (source : t ∈ s.tables)
    (leads : registry.Leads t.source.entity hops e)
    (serves : ∀ t ∈ s.tables, ∀ u ∈ s.tables, ∀ hop, u.pair? = some (t.name, hop.name) →
      t.source.entity.association? hop.name = some hop → P hop u → u.Serves registry hop) :
    s.Follows (FromTable.Serves registry) t hops last ∧ last.source.entity = e := by
  induction follows with
  | here =>
    cases leads
    exact ⟨.here, rfl⟩
  | hop member pair holds _ ih =>
    cases leads with
    | hop own described later =>
      have own := serves _ source _ member _ pair own holds
      have same := Except.ok.inj (described.symm.trans own.2.1)
      obtain ⟨follows, reached⟩ := ih member (same ▸ later)
      exact ⟨.hop member pair own follows, reached⟩

namespace Plan

variable {p q : Plan}

theorem mentions_declared {t : FromTable} (member : t ∈ q.declared) : (t.name, t.source.entity.name) ∈ q.mentions := by
  simp only [mentions, List.mem_append, List.mem_map]
  rcases List.mem_append.mp member with source | joined
  · obtain ⟨a, inside, rfl⟩ := List.mem_map.mp source
    exact .inl (.inl (.inl (.inl ⟨a, inside, rfl⟩)))
  · obtain ⟨j, inside, rfl⟩ := List.mem_map.mp joined
    exact .inl (.inl (.inl (.inr ⟨j, inside, rfl⟩)))

theorem mentions_owner {j : Join} {path : AssociationPath} (member : j ∈ q.joins) (own : j.association = some path) :
    (path.owner.name, path.owner.entity.name) ∈ q.mentions := by
  simp only [mentions, List.mem_append, List.mem_map]
  exact .inl (.inl (.inr ⟨path, List.mem_filterMap.mpr ⟨j, member, own⟩, rfl⟩))

theorem mentions_path {path : Path} (member : path ∈ q.paths) : (path.root, path.rootEntity) ∈ q.mentions := by
  simp only [mentions, List.mem_append]
  exact .inr (List.mem_map_of_mem member)

theorem Registered.described (registered : q.Registered registry) :
    ∀ t ∈ q.declared, registry.Describes t.source.entity ∧ t.table = t.source.entity.table := by
  refine List.forall_mem_append.mpr ⟨List.forall_mem_map.mpr fun a inside => ⟨registered.sources a inside, rfl⟩, ?_⟩
  exact List.forall_mem_map.mpr fun j inside => ⟨registered.targets j inside, rfl⟩

/-- The tables that a query names itself are joined along associations of the entities that their aliases stand for,
where these are the entities that the joins start at. -/
theorem Registered.faithful {outer : List Scope} {scope : Scope} (registered : q.Registered registry)
    (opens : scope.Opens registry outer q)
    (owners : ∀ j ∈ q.joins, ∀ path, j.association = some path → ∀ o ∈ q.declared, o.name = path.owner.name →
      o.source.entity = path.owner.entity) :
    ∀ t ∈ q.declared, t.Faithful registry q.declared := by
  intro t member owner a link
  obtain ⟨described, table⟩ := registered.described t member
  obtain ⟨before, after, split⟩ := List.append_of_mem member
  have earlier := opens.introduces.ordered before t (after ++ scope.generated.map .ofGenerated)
    (by rw [split, List.append_assoc, List.cons_append]) owner a link
  obtain ⟨o, inside, name⟩ := List.mem_map.mp earlier
  have declared : o ∈ q.declared := split ▸ List.mem_append_left _ inside
  rcases List.mem_append.mp member with source | joined
  · obtain ⟨_, _, rfl⟩ := List.mem_map.mp source
    cases link
  · obtain ⟨j, listed, rfl⟩ := List.mem_map.mp joined
    obtain ⟨path, own, same⟩ := Option.map_eq_some_iff.mp link
    cases same
    obtain ⟨single, leads⟩ := opens.joins j listed path own
    obtain ⟨_, middle, start, found, target⟩ := (registered.associations j listed path own).leads
    rw [single] at start
    cases start
    have entity := owners j listed path own o declared name
    have reached : path.target = j.target.entity :=
      (Registry.describes_of_describe target).eq described leads
    exact ⟨⟨reached ▸ target, table⟩, o, declared, name, entity ▸ found⟩

end Plan

namespace Scope

variable {outer : List Scope} {s after : Scope} {tables : List FromTable} {path : Path}

/-- Joins that are generated for associations of a table's entity are joined along associations of the entities that
their aliases stand for. -/
theorem cover_truthful {inCondition : Bool} {hops : List Association} {o : FromTable} {last : Entity}
    (agree : registry.TablesAgree) (holds : s.Introduces outer tables) (truthful : Truthful registry tables)
    (source : o ∈ tables) (leads : registry.Leads o.source.entity hops last)
    (run : cover registry outer path inCondition hops o.name s = .ok after) :
    ∃ js, after.generated = s.generated ++ js ∧ after.Introduces outer (tables ++ js.map .ofGenerated) ∧
      Truthful registry (tables ++ js.map .ofGenerated) := by
  -- By the associations that are left, with the table that they lead on from; what is generated is kept truthful.
  induction hops generalizing o s tables with
  | nil =>
    cases run
    exact ⟨[], (List.append_nil _).symm, by rwa [List.map_nil, List.append_nil],
      by rwa [List.map_nil, List.append_nil]⟩
  | cons hop rest ih =>
    cases leads with
    | @hop _ t _ _ _ own described later =>
      unfold cover at run
      cases reached : s.hop? o.name hop.name with
      | some next =>
        rw [reached] at run
        obtain ⟨u, joined, a, link, named, rfl⟩ := holds.joined reached
        have pair : u.pair? = some (o.name, hop.name) := by rw [FromTable.pair?, link, ← named]; rfl
        have distinct : (tables.map FromTable.name).Nodup := holds.names ▸ holds.distinct
        have serves := (truthful.faithful u joined).serves distinct source pair own
        have same : t = u.source.entity := Except.ok.inj (described.symm.trans serves.2.1)
        exact ih holds truthful joined (same ▸ later) run
      | none =>
        rw [reached] at run
        dsimp only at run
        split at run
        · cases run
        split at run
        · cases run
        obtain ⟨target, found, run⟩ := Except.bind_eq_ok.mp run
        cases described.symm.trans found
        have fresh := freshName_notMem (s.taken outer) s!"{o.name}_{hop.name}"
        generalize freshName (s.taken outer) s!"{o.name}_{hop.name}" = name at run fresh
        have current : o.name ∈ s.names := holds.names ▸ List.mem_map_of_mem source
        have added : Adds outer s _ (s.generate o.name hop ⟨name, t⟩) := generate_adds current fresh
        have table : hop.targetTable = t.table :=
          agree _ (truthful.described o source) hop (List.mem_of_find?_eq_some own) t described
        have faithful : (FromTable.ofGenerated ⟨o.name, hop, ⟨name, t⟩⟩).Faithful registry tables := by
          intro owner a link
          cases link
          exact ⟨⟨described, table⟩, o, source, rfl, own⟩
        have grown := truthful.add (t := .ofGenerated ⟨o.name, hop, ⟨name, t⟩⟩)
          (Registry.describes_of_describe described) faithful
        obtain ⟨js, generated, introduces, kept⟩ := ih (holds.add added) grown
          (List.mem_append_right _ List.mem_cons_self) later run
        refine ⟨⟨o.name, hop, ⟨name, t⟩⟩ :: js, ?_, ?_, ?_⟩
        · rw [generated, generate, List.append_assoc]
          rfl
        · rwa [List.append_assoc] at introduces
        · rwa [List.append_assoc] at kept

/-- Joins are generated for associations of the path. -/
theorem cover_hops {inCondition : Bool} {hops : List Association} {current : String}
    (run : cover registry outer path inCondition hops current s = .ok after) :
    ∀ j ∈ after.generated, j ∈ s.generated ∨ j.association ∈ hops := by
  induction hops generalizing current s with
  | nil =>
    cases run
    exact fun _ => .inl
  | cons hop rest ih =>
    unfold cover at run
    split at run
    · exact fun j member => (ih run j member).imp_right (List.mem_cons_of_mem _)
    split at run
    · cases run
    split at run
    · cases run
    obtain ⟨target, _, run⟩ := Except.bind_eq_ok.mp run
    intro j member
    rcases ih run j member with before | later
    · rcases List.mem_append.mp before with old | new
      · exact .inl old
      · cases List.mem_singleton.mp new
        exact .inr List.mem_cons_self
    · exact .inr (List.mem_cons_of_mem _ later)

theorem coverPath_hops {inCondition : Bool} (run : coverPath registry outer s path inCondition = .ok after) :
    ∀ j ∈ after.generated, j ∈ s.generated ∨ j.association ∈ path.hops := by
  unfold coverPath at run
  split at run
  · cases run
    exact fun _ => .inl
  split at run
  · exact cover_hops run
  split at run
  · cases run
  · cases run

theorem coverPaths_hops {uses : List (Path × Bool)}
    (run : uses.foldlM (fun s (path, inCondition) => coverPath registry outer s path inCondition) s = .ok after) :
    ∀ j ∈ after.generated, j ∈ s.generated ∨ ∃ use ∈ uses, j.association ∈ use.1.hops := by
  induction uses generalizing s with
  | nil =>
    cases run
    exact fun _ => .inl
  | cons use rest ih =>
    rw [List.foldlM_cons] at run
    obtain ⟨next, covered, run⟩ := Except.bind_eq_ok.mp run
    intro j member
    rcases ih run j member with before | ⟨other, inside, among⟩
    · exact (coverPath_hops covered j before).imp_right fun among => ⟨use, List.mem_cons_self, among⟩
    · exact .inr ⟨other, List.mem_cons_of_mem _ inside, among⟩

theorem ofPlan_hops {q : Plan} (run : ofPlan registry outer q = .ok s) :
    ∀ j ∈ s.generated, ∃ use ∈ q.pathUses, j.association ∈ use.1.hops := by
  unfold ofPlan at run
  split at run
  · cases run
  obtain ⟨sourced, sources, run⟩ := Except.bind_eq_ok.mp run
  obtain ⟨joined, joins, run⟩ := Except.bind_eq_ok.mp run
  obtain ⟨_, none, _⟩ := introduces_declared sources joins
  intro j member
  refine (coverPaths_hops run j member).resolve_left fun before => ?_
  rw [none] at before
  cases before

/-- No join is generated for a path in a join condition. -/
theorem cover_inCondition {hops : List Association} {current : String}
    (run : cover registry outer path true hops current s = .ok after) : after = s := by
  induction hops generalizing current with
  | nil =>
    cases run
    rfl
  | cons hop rest ih =>
    unfold cover at run
    cases reached : s.hop? current hop.name with
    | some next =>
      rw [reached] at run
      exact ih run
    | none =>
      rw [reached] at run
      cases run

/-- A path that may have joins generated for it is built from the registry, and its root's alias stands for its root
entity. -/
def Fits (registry : Registry) (aliases : List Alias) (use : Path × Bool) : Prop :=
  use.1.Built registry ∧ (use.2 = false → use.1.hops ≠ [] →
    ∀ a ∈ aliases, a.name = use.1.root → a.entity.name = use.1.rootEntity)

theorem coverPath_truthful {inCondition : Bool} (agree : registry.TablesAgree) (holds : s.Introduces outer tables)
    (truthful : Truthful registry tables) (fits : Fits registry s.aliases (path, inCondition))
    (run : coverPath registry outer s path inCondition = .ok after) :
    ∃ js, after.generated = s.generated ++ js ∧ after.Introduces outer (tables ++ js.map .ofGenerated) ∧
      Truthful registry (tables ++ js.map .ofGenerated) := by
  have unchanged : ∃ js, s.generated = s.generated ++ js ∧ s.Introduces outer (tables ++ js.map .ofGenerated) ∧
      Truthful registry (tables ++ js.map .ofGenerated) :=
    ⟨[], (List.append_nil _).symm, by rwa [List.map_nil, List.append_nil], by rwa [List.map_nil, List.append_nil]⟩
  unfold coverPath at run
  split at run
  case isTrue =>
    cases run
    exact unchanged
  case isFalse navigates =>
    split at run
    case isTrue declared =>
      cases inCondition with
      | true =>
        cases cover_inCondition run
        exact unchanged
      | false =>
        have root := has_iff.mp declared
        rw [holds.names] at root
        obtain ⟨o, source, name⟩ := List.mem_map.mp root
        obtain ⟨e, last, described, named, leads, _⟩ := fits.1.leads
        have listed : o.source ∈ s.aliases := holds.aliases ▸ List.mem_map_of_mem source
        have stands := fits.2 rfl (fun direct => navigates (List.isEmpty_iff.mpr direct)) o.source listed name
        have same : e = o.source.entity :=
          described.eq (truthful.described o source) (named.trans stands.symm)
        rw [← name] at run
        exact cover_truthful agree holds truthful source (same ▸ leads) run
    case isFalse =>
      split at run
      · cases run
      · cases run

theorem coverPaths_truthful {uses : List (Path × Bool)} (agree : registry.TablesAgree)
    (holds : s.Introduces outer tables) (truthful : Truthful registry tables)
    (run : uses.foldlM (fun s (path, inCondition) => coverPath registry outer s path inCondition) s = .ok after)
    (fits : ∀ use ∈ uses, Fits registry after.aliases use) :
    ∃ js, after.generated = s.generated ++ js ∧ Truthful registry (tables ++ js.map .ofGenerated) := by
  induction uses generalizing s tables with
  | nil =>
    cases run
    exact ⟨[], (List.append_nil _).symm, by rwa [List.map_nil, List.append_nil]⟩
  | cons use rest ih =>
    obtain ⟨own, others⟩ := List.forall_mem_cons.mp fits
    rw [List.foldlM_cons] at run
    obtain ⟨next, covered, run⟩ := Except.bind_eq_ok.mp run
    obtain ⟨_, first, _⟩ := coverPath_generates holds covered
    obtain ⟨_, later, _⟩ := coverPaths_generates (first.introduces holds) run
    have earlier : s.aliases ⊆ after.aliases := (first.subset.trans later.subset).subset
    obtain ⟨js, generated, introduces, kept⟩ := coverPath_truthful agree holds truthful
      ⟨own.1, fun free navigates a inside => own.2 free navigates a (earlier inside)⟩ covered
    obtain ⟨ks, more, whole⟩ := ih introduces kept run others
    refine ⟨js ++ ks, ?_, ?_⟩
    · rw [more, generated, List.append_assoc]
    · rwa [List.map_append, ← List.append_assoc]

/-- The tables of a query are joined truthfully when every path that has joins generated for it starts at an alias of
its root entity. -/
theorem ofPlan_truthful {q : Plan} (agree : registry.TablesAgree) (declared : Truthful registry q.declared)
    (run : ofPlan registry outer q = .ok s) (fits : ∀ use ∈ q.pathUses, Fits registry s.aliases use) :
    Truthful registry (q.declared ++ s.generated.map .ofGenerated) := by
  unfold ofPlan at run
  split at run
  · cases run
  obtain ⟨sourced, sources, run⟩ := Except.bind_eq_ok.mp run
  obtain ⟨joined, joins, run⟩ := Except.bind_eq_ok.mp run
  obtain ⟨holds, none, _⟩ := introduces_declared sources joins
  obtain ⟨js, generated, truthful⟩ := coverPaths_truthful agree holds declared run fits
  rwa [generated, none, List.nil_append]

theorem locate_ok {scopes : List Scope} {owner : String} (run : locate scopes path = .ok owner) :
    ∃ s ∈ scopes, ∃ a ∈ s.aliases, a.name = path.root ∧ a.entity.name = path.rootEntity ∧
      s.follow path path.hops path.root = .ok owner := by
  unfold locate at run
  split at run
  case h_1 => cases run
  case h_2 s a found =>
    split at run
    · cases run
    case isFalse same =>
      obtain ⟨other, inside, own⟩ := List.exists_of_findSome?_eq_some found
      obtain ⟨b, atRoot, pair⟩ := Option.map_eq_some_iff.mp own
      cases pair
      exact ⟨s, inside, a, List.mem_of_find?_eq_some atRoot, by simpa using List.find?_some atRoot,
        by simpa using same, run⟩

/-- A column of an alias's own entity is located at the alias. -/
theorem locate_unnavigated {scopes : List Scope} {owner : String} (own : path.hops = [])
    (run : locate scopes path = .ok owner) : owner = path.root := by
  obtain ⟨s, _, _, _, _, _, followed⟩ := locate_ok run
  rw [own] at followed
  cases followed
  rfl

/-- Where no alias of a scope starts a path, the path is located further out. -/
theorem locate_outside (absent : path.root ∉ s.names) : locate (s :: outer) path = locate outer path := by
  have none : s.find? path.root = none := by
    rw [find?, List.find?_eq_none]
    intro a member
    have other : a.name ≠ path.root := fun same => absent (same ▸ List.mem_map_of_mem member)
    simpa using other
  rw [locate, locate, List.findSome?_cons, none]
  rfl

theorem locate_found {a : Alias} (found : s.find? path.root = some a) : locate (s :: outer) path =
    if a.entity.name != path.rootEntity then refusePlan (.wrongEntity path.root a.entity.name path.rootEntity)
    else s.follow path path.hops path.root := by
  rw [locate, List.findSome?_cons, found]
  rfl

/-- Where a path starts in a scope, it is located there and nowhere further out. -/
theorem locate_own {owner : String} (root : path.root ∈ s.names) (run : locate (s :: outer) path = .ok owner) :
    ∃ a ∈ s.aliases, a.name = path.root ∧ a.entity.name = path.rootEntity ∧
      s.follow path path.hops path.root = .ok owner := by
  obtain ⟨a, atRoot⟩ := find?_of_mem_names root
  unfold locate at run
  rw [List.findSome?_cons, atRoot] at run
  dsimp only [Option.map_some] at run
  split at run
  · cases run
  case isFalse same =>
    exact ⟨a, List.mem_of_find?_eq_some atRoot, by simpa using List.find?_some atRoot, by simpa using same, run⟩

end Scope

/-- One table is joined for each of the associations that a scope follows. -/
theorem Select.follows_of_follow {s : Select} {scope : Scope} {outer : List Scope} {path : Path} {hops : List Association}
    {t : FromTable} {owner : String} (holds : scope.Introduces outer s.tables) (source : t ∈ s.tables)
    (followed : scope.follow path hops t.name = .ok owner) :
    ∃ last ∈ s.tables, s.Follows (fun _ _ => True) t hops last ∧ last.name = owner := by
  induction hops generalizing t with
  | nil =>
    cases followed
    exact ⟨t, source, .here, rfl⟩
  | cons hop rest ih =>
    unfold Scope.follow at followed
    cases reached : scope.hop? t.name hop.name with
    | none =>
      rw [reached] at followed
      cases followed
    | some next =>
      rw [reached] at followed
      obtain ⟨u, joined, a, link, named, rfl⟩ := holds.joined reached
      obtain ⟨last, inside, follows, name⟩ := ih joined followed
      have pair : u.pair? = some (t.name, hop.name) := by rw [FromTable.pair?, link, ← named]; rfl
      exact ⟨last, inside, .hop joined pair True.intro follows, name⟩

namespace Select.Resolves

variable {role : Role} {outer : List Scope} {q : Plan} {scope : Scope} {s : Select}

theorem introduces (r : Resolves registry outer role q scope s) : scope.Introduces outer s.tables := by
  rw [r.tables]
  exact (Scope.ofPlan_opens r.opened).introduces

theorem aliases_nodup (r : Resolves registry outer role q scope s) : (s.tables.map FromTable.name).Nodup :=
  r.introduces.names ▸ r.introduces.distinct

/-- Every alias stands for the entity that it is said to stand for. -/
theorem stands (r : Resolves registry outer role q scope s) (agree : registry.TablesAgree)
    (registered : q.Registered registry) : ∀ t ∈ s.tables, t.StandsFor registry t.source.entity.name := by
  have opens := Scope.ofPlan_opens r.opened
  rw [r.tables]
  refine List.forall_mem_append.mpr ⟨registered.described, List.forall_mem_map.mpr fun j inside => ?_⟩
  obtain ⟨⟨path, inCondition⟩, listed, among⟩ := Scope.ofPlan_hops r.opened j inside
  obtain ⟨e, last, described, _, leads, _⟩ := (registered.paths path (Plan.mem_paths_of_pathUses listed)).leads
  obtain ⟨owner, known, own⟩ := leads.owned described _ among
  have target := opens.targets j inside
  exact ⟨Registry.describes_of_describe target, agree owner known _ own _ target⟩

/-- All tables of a query are joined truthfully where those that it names itself are, and where the paths that it looks
for in empty lists start at aliases of their root entities. -/
theorem truthful (r : Resolves registry outer role q scope s) (kept : role ≠ .counted) (agree : registry.TablesAgree)
    (registered : q.Registered registry) (declared : Truthful registry q.declared)
    (starts : ∀ path ∈ q.sought, path ∈ q.paths → path.hops ≠ [] →
      ∃ t ∈ q.declared, t.name = path.root ∧ t.source.entity.name = path.rootEntity) : Truthful registry s.tables := by
  have opens := Scope.ofPlan_opens r.opened
  have unique : ∀ a ∈ scope.aliases, ∀ b ∈ scope.aliases, a.name = b.name → a = b := fun a first b second =>
    List.inj_on_of_nodup_map opens.introduces.distinct first second
  rw [r.tables]
  refine Scope.ofPlan_truthful agree declared r.opened fun use member => ?_
  obtain ⟨path, inCondition⟩ := use
  have listed := Plan.mem_paths_of_pathUses member
  refine ⟨registered.paths path listed, fun free navigates a inside name => ?_⟩
  change inCondition = false at free
  subst free
  -- Only a path in an empty list has joins generated for it without being located.
  rcases r.located kept member with sought | ⟨owner, located⟩
  · obtain ⟨t, declared, named, entity⟩ := starts path sought listed navigates
    have held : t.source ∈ scope.aliases := by
      rw [opens.introduces.aliases]
      exact List.mem_map_of_mem (List.mem_append_left _ declared)
    rw [unique a inside t.source held (name.trans named.symm)]
    exact entity
  · obtain ⟨b, held, named, entity, _⟩ := Scope.locate_own (opens.follows _ member navigates).1 located
    rw [unique a inside b held (name.trans named.symm)]
    exact entity

end Select.Resolves

/-- The query is resolved from a plan that is built from the registry and uses each alias with one entity. -/
structure Select.Grounded (registry : Registry) (outer : List Scope) (q : Plan) (scope : Scope) (s : Select) : Prop where
  resolves : ∃ role, role ≠ .counted ∧ Select.Resolves registry outer role q scope s
  registered : q.Registered registry
  plain : ∀ name first second, (name, first) ∈ q.mentions → (name, second) ∈ q.mentions → first = second

namespace Select.Grounded

variable {outer : List Scope} {q : Plan} {scope : Scope} {s : Select} {path : Path}

theorem declared (g : Grounded registry outer q scope s) : Truthful registry q.declared := by
  obtain ⟨role, _, r⟩ := g.resolves
  refine ⟨fun t member => (g.registered.described t member).1,
    g.registered.faithful (Scope.ofPlan_opens r.opened) fun j listed path own o declared name => ?_⟩
  refine (g.registered.described o declared).1.eq (g.registered.associations j listed path own).leads.1 ?_
  exact g.plain _ _ _ (name ▸ Plan.mentions_declared declared) (Plan.mentions_owner listed own)

theorem tables (g : Grounded registry outer q scope s) : s.tables = q.declared ++ s.generated.map .ofGenerated := by
  obtain ⟨role, _, r⟩ := g.resolves
  rw [r.tables, r.generated]

/-- All tables of a query are joined truthfully where its paths, empty lists or not, start at aliases of their root
entities. -/
theorem truthful (g : Grounded registry outer q scope s) (agree : registry.TablesAgree)
    (rooted : ∀ path ∈ q.sought, path.hops ≠ [] → path.root ∈ q.declared.map FromTable.name) :
    Truthful registry s.tables := by
  obtain ⟨role, kept, r⟩ := g.resolves
  refine r.truthful kept agree g.registered g.declared fun path sought listed navigates => ?_
  obtain ⟨t, declared, named⟩ := List.mem_map.mp (rooted path sought navigates)
  exact ⟨t, declared, named, g.plain _ _ _ (named ▸ Plan.mentions_declared declared) (Plan.mentions_path listed)⟩

end Select.Grounded

namespace Path

variable {chain : List Select} {owner : String} {path : Path}

/-- A path has its tables in the query that it is located in. -/
theorem tables_of_follow {role : Role} {outer : List Scope} {q : Plan} {scope : Scope} {s : Select} {a : Alias}
    (r : s.Resolves registry outer role q scope) (agree : registry.TablesAgree) (registered : q.Registered registry)
    (held : a ∈ scope.aliases) (name : a.name = path.root) (entity : a.entity.name = path.rootEntity)
    (followed : scope.follow path path.hops path.root = .ok owner) :
    ∃ root ∈ s.tables, root.name = path.root ∧ root.StandsFor registry path.rootEntity ∧
      ∃ last, s.Follows (fun _ _ => True) root path.hops last ∧ last.name = owner := by
  rw [r.introduces.aliases] at held
  obtain ⟨root, source, rfl⟩ := List.mem_map.mp held
  have start : root.name = path.root := name
  rw [← start] at followed
  obtain ⟨last, _, follows, atOwner⟩ := Select.follows_of_follow r.introduces source followed
  exact ⟨root, source, name, entity ▸ r.stands agree registered root source, last, follows, atOwner⟩

/-- A path is rendered against the right table if all of its tables serve. -/
theorem right_of_follows {s : Select} {P : Association → FromTable → Prop} {root last : FromTable}
    (built : path.Built registry) (among : s ∈ chain) (source : root ∈ s.tables) (name : root.name = path.root)
    (stands : root.StandsFor registry path.rootEntity) (follows : s.Follows P root path.hops last)
    (serves : path.hops ≠ [] → ∀ o ∈ s.tables, ∀ t ∈ s.tables, ∀ hop, t.pair? = some (o.name, hop.name) →
      o.source.entity.association? hop.name = some hop → P hop t → t.Serves registry hop) :
    path.Right registry chain last.name := by
  obtain ⟨e, final, described, named, leads, column⟩ := built.leads
  have entity : e = root.source.entity := described.eq (Registry.describes_of_describe stands.1)
    (named.trans (Registry.name_of_describe stands.1).symm)
  cases hops : path.hops with
  | nil =>
    rw [hops] at leads
    cases leads
    rw [hops] at follows
    cases follows
    exact ⟨root, ⟨s, among, root, source, name, stands, hops ▸ .here, rfl⟩, entity ▸ column⟩
  | cons hop rest =>
    obtain ⟨served, reached⟩ := follows.leads source (entity ▸ leads) (serves (hops ▸ List.cons_ne_nil _ _))
    exact ⟨last, ⟨s, among, root, source, name, stands, served, rfl⟩, reached ▸ column⟩

/-- A path is rendered against the right table exactly when the generated joins that it follows serve it. -/
theorem right_iff_served (built : path.Built registry)
    (grounded : ∀ s ∈ chain, ∃ outer q scope, s.Grounded registry outer q scope) :
    path.Right registry chain owner ↔ path.Served registry chain owner := by
  constructor
  · rintro ⟨last, ⟨s, among, root, source, name, stands, follows, atOwner⟩, _⟩
    exact ⟨last, s, among, root, source, name, stands, follows.mono fun _ _ serves _ => serves, atOwner⟩
  · rintro ⟨last, s, among, root, source, name, stands, follows, rfl⟩
    obtain ⟨outer, q, scope, g⟩ := grounded s among
    obtain ⟨_, _, r⟩ := g.resolves
    refine right_of_follows built among source name stands follows fun _ o owner t member hop pair own served => ?_
    rw [g.tables] at member
    rcases List.mem_append.mp member with declared | generated
    · have faithful := (g.declared.faithful t declared).mono (List.subset_append_left _ (s.generated.map .ofGenerated))
      rw [← g.tables] at faithful
      exact faithful.serves r.aliases_nodup owner pair own
    · exact served generated

/-- A path is rendered against the right table where it follows no association, and where the tables of the query that
it is located in are joined truthfully. -/
theorem right_of_truthful {role : Role} {outer : List Scope} {q : Plan} {scope : Scope} {s : Select} {a : Alias}
    (r : s.Resolves registry outer role q scope) (agree : registry.TablesAgree) (registered : q.Registered registry)
    (built : path.Built registry) (among : s ∈ chain) (held : a ∈ scope.aliases) (name : a.name = path.root)
    (entity : a.entity.name = path.rootEntity) (followed : scope.follow path path.hops path.root = .ok owner)
    (truthful : path.hops ≠ [] → Truthful registry s.tables) : path.Right registry chain owner := by
  obtain ⟨root, source, start, stands, last, follows, rfl⟩ :=
    tables_of_follow r agree registered held name entity followed
  refine right_of_follows built among source start stands follows fun navigates o source t joined hop pair own _ => ?_
  exact ((truthful navigates).faithful t joined).serves r.aliases_nodup source pair own

end Path

end EntityMapper
