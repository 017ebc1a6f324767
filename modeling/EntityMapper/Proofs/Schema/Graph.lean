import EntityMapper.Proofs.Schema.Members

namespace EntityMapper

/-- An association is named, directed and sided as the link that declares it. -/
def Link.Declares : Link → Association → Prop
  | owning name target joinColumn, a =>
    a.name = name ∧ a.target = target ∧ a.mappedBy = none ∧ a.cardinality = .one ∧ a.ownerColumn = joinColumn
  | inverse name target mappedBy cardinality, a =>
    a.name = name ∧ a.target = target ∧ a.mappedBy = some mappedBy ∧ a.cardinality = cardinality

theorem Link.declares_of_resolve {all : List Definition} {owner : Definition} {ownKey : Field} {link : Link}
    {a : Association} (run : link.resolve all owner ownKey = .ok a) : link.Declares a := by
  cases link with
  | owning =>
    obtain ⟨_, _, _, _, rfl⟩ := resolve_owning_ok run
    exact ⟨rfl, rfl, rfl, rfl, rfl⟩
  | inverse =>
    obtain ⟨_, _, _, _, rfl⟩ := resolve_inverse_ok run
    exact ⟨rfl, rfl, rfl, rfl⟩

/-- An entity has the fields and associations of its definition in order. Its primary key is the key declared last. -/
structure Definition.Declares (d : Definition) (e : Entity) : Prop where
  name : e.name = d.name
  table : e.table = d.table
  fields : e.fields = d.fields
  key : d.lastKey? = some e.primaryKey
  associations : List.Forall₂ Link.Declares d.links e.associations

/-- Every foreign key of an entity is found at the place of its column among the selected ones: behind the fields and
the foreign keys declared before it. -/
def Entity.PlacesForeignKeys (e : Entity) : Prop :=
  ∀ before a after, e.associations = before ++ a :: after → a.isOwning = true →
    let place := e.fields.length + (before.filter (·.isOwning)).length
    e.foreignKeyOffset? a.name = some place ∧ e.selectedColumns[place]? = some a.ownerColumn

theorem Entity.placesForeignKeys_of_nodup {e : Entity} (distinct : (e.associations.map (·.name)).Nodup) :
    e.PlacesForeignKeys := by
  intro before a after split owning
  have keys : e.foreignKeys = before.filter (·.isOwning) ++ a :: after.filter (·.isOwning) := by
    rw [foreignKeys, split, List.filter_append, List.filter_cons_of_pos owning]
  have inside : (before.filter (·.isOwning)).length < e.foreignKeys.length := by
    rw [keys, List.length_append, List.length_cons]
    omega
  have here : e.foreignKeys[(before.filter (·.isOwning)).length] = a := by simp [keys]
  constructor
  · have found := foreignKeyOffset?_getElem distinct inside
    rwa [here] at found
  · rw [selectedColumns, List.getElem?_append_right (by simp), List.length_map, Nat.add_sub_cancel_left,
      List.getElem?_map, List.getElem?_eq_getElem inside, here, Option.map_some]

/-- A registry describes its definitions as a graph: entities and their members have names of their own, and every
association leads to an entity that is described. -/
structure Registry.Consistent (registry : Registry) (definitions : List Definition) : Prop where
  order : registry.entities.map (·.name) = definitions.map (·.name)
  names : (registry.entities.map (·.name)).Nodup
  declared : List.Forall₂ Definition.Declares definitions registry.entities
  members : ∀ e ∈ registry.entities, e.memberNames.Nodup
  leads : ∀ e ∈ registry.entities, ∀ a ∈ e.associations, ∃ t, registry.describe a.target = .ok t ∧ a.Leads e t
  columns : ∀ e ∈ registry.entities, e.columnCount = e.selectedColumns.length ∧ e.PlacesForeignKeys

/-- Why definitions are refused. -/
inductive Refused (definitions : List Definition) : Error → Prop where
  | noKey {d : Definition} (listed : d ∈ definitions) (keyless : d.lastKey? = none) :
    Refused definitions (.invalidArgument (.noPrimaryKey d.name))
  | repeatedMember {d : Definition} {before after : List String} {name : String} (listed : d ∈ definitions)
    (split : d.memberNames = before ++ name :: after) (again : name ∈ before) :
    Refused definitions (.invalidArgument (.repeatedMember d.name name))
  | repeatedEntity {before after : List Definition} {d : Definition} (split : definitions = before ++ d :: after)
    (again : d.name ∈ before.map (·.name)) : Refused definitions (.invalidArgument (.repeatedEntity d.name))
  | unknownTarget {d : Definition} {link : Link} (listed : d ∈ definitions) (declared : link ∈ d.links)
    (unknown : ∀ t ∈ definitions, t.name ≠ link.target) : Refused definitions (.unknownEntity link.target)
  | unmapped {d t : Definition} {name mappedBy : String} {cardinality : Cardinality} (listed : d ∈ definitions)
    (declared : .inverse name t.name mappedBy cardinality ∈ d.links) (target : t ∈ definitions)
    (missing : ∀ column, .owning mappedBy d.name column ∉ t.links) :
    Refused definitions (.unknownAssociation t.name mappedBy)

namespace Registry

variable {definitions : List Definition} {registry : Registry}

theorem declares_build (built : build definitions = .ok registry) :
    List.Forall₂ Definition.Declares definitions registry.entities := by
  obtain ⟨passed, resolved⟩ := build_eq_ok.mp built
  have checked := (checkDefinitions_eq_ok.mp passed).1
  refine ((List.forall₂_and_left _ _).mpr ⟨fun _ listed => listed, resolved⟩).imp ?_
  rintro d e ⟨listed, own⟩
  obtain ⟨key, associations, keyed, rfl, links⟩ := Definition.resolve_ok own
  obtain ⟨declared, distinct⟩ := checked d listed
  exact ⟨rfl, rfl, rfl, Definition.lastKey?_of_key distinct declared keyed,
    links.imp fun _ _ => Link.declares_of_resolve⟩

theorem consistent_build (built : build definitions = .ok registry) : registry.Consistent definitions where
  order := names_build built
  names := nodup_names built
  declared := declares_build built
  members _ := nodup_memberNames built
  leads _ member _ := leads_build built member
  columns e member :=
    ⟨e.length_selectedColumns.symm, Entity.placesForeignKeys_of_nodup (nodup_associations built member)⟩

/-- Definitions are refused by the check or, all of them having their keys, for a link that cannot be resolved. -/
theorem refused_of_build {e : Error} (failed : build definitions = .error e) : Refused definitions e := by
  rcases Except.bind_eq_error failed with unchecked | ⟨_, passed, failed⟩
  · obtain ⟨before, d, after, split, reason⟩ := checkDefinitions_error unchecked
    have listed : d ∈ definitions := split ▸ List.mem_append_right _ List.mem_cons_self
    rcases reason with ⟨keyless, rfl⟩ | ⟨name, repeated, rfl⟩ | ⟨again, rfl⟩
    · rw [Definition.keyName?_eq, Option.map_eq_none_iff] at keyless
      exact .noKey listed keyless
    · obtain ⟨front, back, names, again⟩ := split_of_firstRepeated? repeated
      exact .repeatedMember listed names (again.resolve_left List.not_mem_nil)
    · exact .repeatedEntity split (again.resolve_left List.not_mem_nil)
  · have checked := (checkDefinitions_eq_ok.mp passed).1
    have keyed : ∀ d ∈ definitions, ∃ key, d.key = .ok key := fun d listed => Definition.exists_key (checked d listed).1
    have unresolved : definitions.mapM (·.resolve definitions) = .error e := by
      rcases Except.bind_eq_error failed with unresolved | ⟨_, _, finished⟩
      · exact unresolved
      · cases finished
    obtain ⟨d, listed, stuck⟩ := Except.mapM_error unresolved
    obtain ⟨link, declared, ownKey, broken⟩ := Definition.resolve_error keyed listed stuck
    rcases Link.resolve_error keyed broken with
      ⟨missing, rfl⟩ | ⟨name, target, mappedBy, cardinality, t, rfl, atTarget, unmapped, rfl⟩
    · refine .unknownTarget listed declared fun t inside same => ?_
      exact List.find?_eq_none.mp missing t inside (by simpa using same)
    · have named : t.name = target := by simpa using List.find?_some atTarget
      subst named
      exact .unmapped listed declared (List.mem_of_find?_eq_some atTarget) (Definition.joinColumn?_eq_none.mp unmapped)

/-- Nothing that would refuse them holds of definitions that are built. -/
theorem not_refused_of_build (built : build definitions = .ok registry) (e : Error) : ¬Refused definitions e := by
  obtain ⟨passed, resolved⟩ := build_eq_ok.mp built
  obtain ⟨checked, distinct, _⟩ := checkDefinitions_eq_ok.mp passed
  have linked : ∀ d ∈ definitions, ∀ link ∈ d.links, ∃ ownKey a, link.resolve definitions d ownKey = .ok a := by
    intro d listed link declared
    obtain ⟨e, _, own⟩ := Except.ok_of_mapM (Except.mapM_eq_ok.mpr resolved) listed
    obtain ⟨a, _, run⟩ := Definition.association_of_resolve own declared
    exact ⟨_, a, run⟩
  intro refused
  cases refused with
  | noKey listed keyless =>
    refine (checked _ listed).1 ?_
    rw [Definition.keyName?_eq, keyless, Option.map_none]
  | repeatedMember listed split again =>
    have apart := (checked _ listed).2
    rw [split, List.nodup_append] at apart
    exact apart.2.2 _ again _ List.mem_cons_self rfl
  | repeatedEntity split again =>
    rw [split, List.map_append, List.map_cons, List.nodup_append] at distinct
    exact distinct.2.2 _ again _ List.mem_cons_self rfl
  | unknownTarget listed declared unknown =>
    obtain ⟨ownKey, a, run⟩ := linked _ listed _ declared
    obtain ⟨t, found⟩ := Link.target_of_resolve run
    exact unknown t (List.mem_of_find?_eq_some found) (by simpa using List.find?_some found)
  | unmapped listed declared target missing =>
    obtain ⟨ownKey, a, run⟩ := linked _ listed _ declared
    obtain ⟨found, column, atTarget, joined, _⟩ := Link.resolve_inverse_ok run
    cases atTarget.symm.trans (find?_of_nodup distinct target)
    exact missing column (Definition.mem_links_of_joinColumn? joined)

/-- Definitions are either described as a consistent graph or refused, for a reason that holds of them. Looking up the
primary key of a definition by its name is not among the reasons. -/
theorem build_consistent (definitions : List Definition) :
    (∀ registry, build definitions = .ok registry → registry.Consistent definitions) ∧
    (∀ e, build definitions = .error e → Refused definitions e ∧ ∀ entity field, e ≠ .unknownField entity field) ∧
    ((∃ registry, build definitions = .ok registry) ↔ ∀ e, ¬Refused definitions e) := by
  refine ⟨fun registry built => consistent_build built, fun e failed => ?_, ?_, fun acceptable => ?_⟩
  · have refused := refused_of_build failed
    refine ⟨refused, fun entity field same => ?_⟩
    rw [same] at refused
    cases refused
  · rintro ⟨registry, built⟩
    exact not_refused_of_build built
  · cases run : build definitions with
    | ok registry => exact ⟨registry, rfl⟩
    | error e => exact absurd (refused_of_build run) (acceptable e)

/-- A folder declares its key twice and refers to itself, and to an owner that is declared behind it. -/
def folderDefinitions : List Definition := [
  ⟨"Folder", "folders", [.id "path" .text, .reference "parent" "Folder" "parent_id", .id "number" .integer,
    .inverse "children" "Folder" "parent" .many, .reference "owner" "User" "owner_id"]⟩,
  ⟨"User", "users", [.field "name" "user_name" .text, .id "login" .text, .inverse "folders" "Folder" "owner" .many]⟩]

def folders : Registry := (build folderDefinitions).toOption.getD default

theorem build_consistent_folders : folders.Consistent folderDefinitions ∧
    Refused (folderDefinitions.take 1) (.unknownEntity "User") ∧ ∀ e, ¬Refused folderDefinitions e := by
  have built : build folderDefinitions = .ok folders := rfl
  have failed : build (folderDefinitions.take 1) = .error (.unknownEntity "User") := rfl
  obtain ⟨consistent, _, accepted⟩ := build_consistent folderDefinitions
  exact ⟨consistent folders built, ((build_consistent (folderDefinitions.take 1)).2.1 _ failed).1,
    accepted.mp ⟨folders, built⟩⟩

end Registry

end EntityMapper
