import EntityMapper.Proofs.Query.Nesting
import EntityMapper.Proofs.Schema.Registry

namespace EntityMapper

/-- Associations lead from an entity to another, each found by its name and its target described by the registry. -/
inductive Registry.Leads (registry : Registry) : Entity → List Association → Entity → Prop
  | here {e : Entity} : Leads registry e [] e
  | hop {e t last : Entity} {a : Association} {rest : List Association} : e.association? a.name = some a →
      registry.describe a.target = .ok t → Leads registry t rest last → Leads registry e (a :: rest) last

variable {registry : Registry}

theorem Registry.Leads.concat {e middle t : Entity} {hops : List Association} {a : Association}
    (leads : registry.Leads e hops middle) (found : middle.association? a.name = some a)
    (described : registry.describe a.target = .ok t) : registry.Leads e (hops ++ [a]) t := by
  induction leads with
  | here => exact .hop found described .here
  | hop first target _ ih => exact .hop first target (ih found)

/-- Each of the associations belongs to a described entity. -/
theorem Registry.Leads.owned {e last : Entity} {hops : List Association} (leads : registry.Leads e hops last)
    (described : registry.Describes e) : ∀ a ∈ hops, ∃ owner, registry.Describes owner ∧ a ∈ owner.associations := by
  induction leads with
  | here => exact fun _ none => absurd none List.not_mem_nil
  | hop found target _ ih =>
    exact List.forall_mem_cons.mpr
      ⟨⟨_, described, List.mem_of_find?_eq_some found⟩, ih (Registry.describes_of_describe target)⟩

theorem Entity.association?_of_name {e : Entity} {name : String} {a : Association} (found : e.association name = .ok a) :
    e.association? a.name = some a := by
  have byName := association_eq_ok.mp found
  rw [name_of_association? byName]
  exact byName

theorem Entity.mem_of_field {e : Entity} {name : String} {f : Field} (found : e.field name = .ok f) : f ∈ e.fields := by
  unfold Entity.field at found
  cases at_ : e.field? name with
  | none =>
    rw [at_] at found
    cases found
  | some other =>
    rw [at_] at found
    cases found
    exact List.mem_of_find?_eq_some at_

/-- An association path that starts at an alias of a described entity and is continued by names. -/
inductive AssociationPath.Built (registry : Registry) : AssociationPath → Prop
  | association {a : Alias} {name : String} {p : AssociationPath} : registry.Describes a.entity →
      a.association registry name = .ok p → Built registry p
  | navigate {p next : AssociationPath} {name : String} : Built registry p → p.navigate registry name = .ok next →
      Built registry next

/-- A path to a field of an alias of a described entity, or of the entity behind an association path. -/
inductive Path.Built (registry : Registry) : Path → Prop
  | field {a : Alias} {f : Field} : registry.Describes a.entity → f ∈ a.entity.fields → Built registry (a.pathTo f)
  | reached {p : AssociationPath} {name : String} {path : Path} : p.Built registry → p.field name = .ok path →
      Built registry path

theorem AssociationPath.Built.leads {p : AssociationPath} (built : p.Built registry) :
    registry.Describes p.owner.entity ∧ ∃ middle, registry.Leads p.owner.entity p.leading middle ∧
      middle.association? p.association.name = some p.association ∧
      registry.describe p.association.target = .ok p.target := by
  induction built with
  | association described run =>
    obtain ⟨a, found, run⟩ := Except.bind_eq_ok.mp run
    obtain ⟨target, at_, run⟩ := Except.bind_eq_ok.mp run
    cases run
    exact ⟨described, _, .here, Entity.association?_of_name found, at_⟩
  | navigate _ run ih =>
    obtain ⟨described, middle, leads, own, target⟩ := ih
    obtain ⟨a, found, run⟩ := Except.bind_eq_ok.mp run
    obtain ⟨next, at_, run⟩ := Except.bind_eq_ok.mp run
    cases run
    exact ⟨described, _, leads.concat own target, Entity.association?_of_name found, at_⟩

/-- The associations of a path lead from its root's entity to one that its column is selected for. -/
theorem Path.Built.leads {path : Path} (built : path.Built registry) : ∃ e last, registry.Describes e ∧
    e.name = path.rootEntity ∧ registry.Leads e path.hops last ∧ path.column ∈ last.selectedColumns := by
  cases built with
  | @field a f described member =>
    exact ⟨a.entity, a.entity, described, rfl, .here, List.mem_append_left _ (List.mem_map_of_mem member)⟩
  | @reached p name path owner run =>
    obtain ⟨described, middle, leads, own, target⟩ := owner.leads
    obtain ⟨f, found, run⟩ := Except.bind_eq_ok.mp run
    split at run
    case isTrue short =>
      cases run
      have listed := List.mem_of_find?_eq_some own
      have foreign : p.association ∈ middle.foreignKeys :=
        List.mem_filter.mpr ⟨listed, (Bool.and_eq_true_iff.mp short).1⟩
      exact ⟨_, middle, described, rfl, leads, List.mem_append_right _ (List.mem_map_of_mem foreign)⟩
    case isFalse =>
      cases run
      have field := Entity.mem_of_field found
      exact ⟨_, p.target, described, rfl, leads.concat own target, List.mem_append_left _ (List.mem_map_of_mem field)⟩

theorem AssociationPath.built_navigate {a : Alias} {first : String} {rest : List String} {p : AssociationPath}
    (described : registry.Describes a.entity) (run : a.navigate registry first rest = .ok p) : p.Built registry := by
  obtain ⟨start, begun, steps⟩ := Except.bind_eq_ok.mp run
  have built : start.Built registry := .association described begun
  clear run begun
  induction rest generalizing start with
  | nil =>
    cases steps
    exact built
  | cons next rest ih =>
    rw [List.foldlM_cons] at steps
    obtain ⟨further, step, steps⟩ := Except.bind_eq_ok.mp steps
    exact ih further steps (.navigate built step)

/-- The ways to make a path from an alias: to its key, to a field, to a field behind associations, by a dotted text, and
to a foreign key. -/
inductive Alias.Makes (registry : Registry) (a : Alias) : Path → Prop
  | key : Makes registry a a.id
  | field {name : String} {path : Path} : a.field name = .ok path → Makes registry a path
  | behind {first name : String} {rest : List String} {p : AssociationPath} {path : Path} :
      a.navigate registry first rest = .ok p → p.field name = .ok path → Makes registry a path
  | dotted {text : String} {path : Path} : a.path registry text = .ok path → Makes registry a path
  | foreignKey {name : String} {path : Path} : a.foreignKey registry name = .ok path → Makes registry a path

/-- Whatever path is made from an alias of a described entity is built. -/
theorem Alias.Makes.built {a : Alias} {path : Path} (described : registry.Describes a.entity)
    (made : a.Makes registry path) : path.Built registry := by
  have direct {name : String} (run : a.field name = .ok path) : path.Built registry := by
    obtain ⟨f, found, run⟩ := Except.bind_eq_ok.mp run
    cases run
    exact .field described (Entity.mem_of_field found)
  cases made with
  | key => exact .field described (List.getElem_mem _)
  | field run => exact direct run
  | behind navigated run => exact .reached (AssociationPath.built_navigate described navigated) run
  | dotted run =>
    unfold Alias.path at run
    dsimp only at run
    split at run
    · exact direct run
    · obtain ⟨p, navigated, run⟩ := Except.bind_eq_ok.mp run
      exact .reached (AssociationPath.built_navigate described navigated) run
  | foreignKey run =>
    obtain ⟨found, _, run⟩ := Except.bind_eq_ok.mp run
    split at run
    · cases run
    · obtain ⟨_, _, run⟩ := Except.bind_eq_ok.mp run
      obtain ⟨p, begun, run⟩ := Except.bind_eq_ok.mp run
      exact .reached (.association described begun) run

namespace Plan

/-- The paths of a query's clauses. Those inside its subqueries are not among them. -/
def paths (p : Plan) : List Path := p.exprs.filterMap Expr.path?

theorem mem_paths_of_pathUses {p : Plan} {path : Path} {inCondition : Bool} (member : (path, inCondition) ∈ p.pathUses) :
    path ∈ p.paths := by
  obtain ⟨e, listed, found⟩ := mem_pathUses.mp member
  refine List.mem_filterMap.mpr ⟨e, ?_, found⟩
  cases inCondition with
  | true => exact List.mem_append_right _ listed
  | false => exact List.mem_append_left _ listed

/-- Whatever a query itself names is described by the registry: its sources, its joins and its paths. -/
structure Registered (registry : Registry) (p : Plan) : Prop where
  sources : ∀ a ∈ p.sources, registry.Describes a.entity
  targets : ∀ j ∈ p.joins, registry.Describes j.target.entity
  associations : ∀ j ∈ p.joins, ∀ path, j.association = some path → path.Built registry
  paths : ∀ path ∈ p.paths, path.Built registry

/-- A query and its subqueries are built from one registry. -/
def Built (registry : Registry) (p : Plan) : Prop := ∀ q, p.Contains q → q.Registered registry

/-- The aliases that a query mentions, each with the name of the entity that it is used with. -/
def mentions (p : Plan) : List (String × String) :=
  let mention (a : Alias) := (a.name, a.entity.name)
  p.sources.map mention ++ p.joins.map (mention ·.target) ++ (p.joins.filterMap (·.association)).map (mention ·.owner) ++
    (p.projections.filterMap (·.source?)).map mention ++ p.paths.map fun path => (path.root, path.rootEntity)

/-- Each alias is used with one entity wherever a query or its subqueries mention it. -/
def Unambiguous (p : Plan) : Prop := ∀ q r, p.Contains q → p.Contains r →
  ∀ name first second, (name, first) ∈ q.mentions → (name, second) ∈ r.mentions → first = second

theorem unambiguous_of_single {p : Plan} (entity : String)
    (single : ∀ q, p.Contains q → ∀ mention ∈ q.mentions, mention.2 = entity) : p.Unambiguous := by
  intro q r inQ inR name first second one two
  exact (single q inQ _ one).trans (single r inR _ two).symm

theorem contains_iff {p q : Plan} : p.Contains q ↔ q = p ∨ ∃ r ∈ p.inner, r.Contains q := by
  constructor
  · intro contains
    induction contains with
    | self => exact .inl rfl
    | inner _ member ih =>
      rcases ih with rfl | ⟨r, inside, deeper⟩
      · exact .inr ⟨_, member, .self⟩
      · exact .inr ⟨r, inside, .inner deeper member⟩
  · rintro (rfl | ⟨r, inside, deeper⟩)
    · exact .self
    · induction deeper with
      | self => exact .inner .self inside
      | inner _ member ih => exact .inner ih member

theorem forall_contains {p : Plan} {P : Plan → Prop} :
    (∀ q, p.Contains q → P q) ↔ P p ∧ ∀ q ∈ p.inner, ∀ r, q.Contains r → P r := by
  refine ⟨fun all => ⟨all p .self, fun q member r deeper => all r (contains_iff.mpr (.inr ⟨q, member, deeper⟩))⟩, ?_⟩
  rintro ⟨own, others⟩ q contains
  rcases contains_iff.mp contains with rfl | ⟨r, member, deeper⟩
  · exact own
  · exact others r member q deeper

end Plan

end EntityMapper
