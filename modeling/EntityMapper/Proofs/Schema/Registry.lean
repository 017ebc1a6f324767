import EntityMapper.Proofs.Schema.Definitions

namespace EntityMapper

namespace Registry

variable {registry : Registry} {name : String} {e : Entity}

theorem describe_eq_ok : registry.describe name = .ok e ↔ registry.find? name = some e := by
  unfold describe
  cases registry.find? name with
  | none => simp
  | some found => simp

theorem name_of_describe (described : registry.describe name = .ok e) : e.name = name := by
  simpa using List.find?_some (describe_eq_ok.mp described)

theorem mem_of_describe (described : registry.describe name = .ok e) : e ∈ registry.entities :=
  List.mem_of_find?_eq_some (describe_eq_ok.mp described)

theorem describe_error {e : Error} (failed : registry.describe name = .error e) : e = .unknownEntity name := by
  unfold describe at failed
  cases found : registry.find? name with
  | none =>
    rw [found] at failed
    cases failed
    rfl
  | some other =>
    rw [found] at failed
    cases failed

/-- An entity that the registry describes under its own name. -/
def Describes (registry : Registry) (e : Entity) : Prop := registry.describe e.name = .ok e

theorem describes_of_describe (described : registry.describe name = .ok e) : registry.Describes e := by
  rw [Describes, name_of_describe described]
  exact described

theorem Describes.eq {other : Entity} (described : registry.Describes e) (also : registry.Describes other)
    (same : e.name = other.name) : e = other := by
  rw [Describes, same] at described
  exact Except.ok.inj (described.symm.trans also)

end Registry

theorem Entity.name_of_association? {e : Entity} {name : String} {a : Association} (found : e.association? name = some a) :
    a.name = name := by
  simpa using List.find?_some found

theorem Entity.association_eq_ok {e : Entity} {name : String} {a : Association} :
    e.association name = .ok a ↔ e.association? name = some a := by
  unfold association
  cases e.association? name with
  | none => simp
  | some found => simp

/-- An owning association joins on the primary key of the entity that it leads to. -/
structure Association.RefersTo (a : Association) (t : Entity) : Prop where
  owning : a.mappedBy = none
  single : a.cardinality = .one
  column : a.targetColumn = t.primaryKey.column
  type : a.keyType = t.primaryKey.type

/-- An inverse association is the mirror image of the owning association that it is mapped by. -/
structure Association.Mirrors (a b : Association) : Prop where
  mapped : a.mappedBy = some b.name
  back : b.target = a.owner
  ownerColumn : a.ownerColumn = b.targetColumn
  targetColumn : a.targetColumn = b.ownerColumn
  type : a.keyType = b.keyType

/-- An association of an entity leads to another one by a foreign key of the one that refers to the other. -/
structure Association.Leads (a : Association) (e t : Entity) : Prop where
  owner : a.owner = e.name
  target : a.target = t.name
  table : a.targetTable = t.table
  sides : a.RefersTo t ∨ ∃ b ∈ t.associations, a.Mirrors b ∧ b.RefersTo e

/-- What is found by name among definitions is found by that name, resolved, among their entities. -/
theorem find?_resolved {all ds : List Definition} {es : List Entity} {name : String} {d : Definition}
    (resolved : List.Forall₂ (fun d e => d.resolve all = .ok e) ds es) (found : ds.find? (·.name == name) = some d) :
    ∃ e, es.find? (·.name == name) = some e ∧ d.resolve all = .ok e := by
  induction resolved with
  | nil => cases found
  | cons own _ ih =>
    rw [List.find?_cons] at found
    rw [List.find?_cons, Definition.name_of_resolve own]
    split at found
    case h_1 here =>
      cases found
      exact ⟨_, rfl, own⟩
    case h_2 elsewhere => exact ih found

section

variable {all : List Definition} {d : Definition} {e : Entity}

/-- A resolved owning link refers to the entity that it leads to. -/
theorem Link.refersTo_of_resolve {es : List Entity} (resolved : List.Forall₂ (fun d e => d.resolve all = .ok e) all es)
    {name target joinColumn : String} {ownKey : Field} {a : Association}
    (run : (Link.owning name target joinColumn).resolve all d ownKey = .ok a) :
    ∃ t, es.find? (·.name == a.target) = some t ∧ a.owner = d.name ∧ a.target = target ∧ a.name = name ∧
      a.ownerColumn = joinColumn ∧ a.targetTable = t.table ∧ a.RefersTo t := by
  obtain ⟨found, key, atTarget, keyed, rfl⟩ := resolve_owning_ok run
  obtain ⟨t, there, other⟩ := find?_resolved resolved atTarget
  cases keyed.symm.trans (Definition.keyField_of_resolve other)
  exact ⟨t, there, rfl, rfl, rfl, rfl, (Definition.table_of_resolve other).symm, rfl, rfl, rfl, rfl⟩

/-- A resolved link leads from the entity of its definition to another one of the resolved entities. -/
theorem Link.leads_of_resolve {es : List Entity} (distinct : (all.map (·.name)).Nodup)
    (resolved : List.Forall₂ (fun d e => d.resolve all = .ok e) all es) (listed : d ∈ all)
    (own : d.resolve all = .ok e) {link : Link} {a : Association} (run : link.resolve all d e.primaryKey = .ok a) :
    ∃ t, es.find? (·.name == a.target) = some t ∧ a.Leads e t := by
  have named := Definition.name_of_resolve own
  cases link with
  | owning name target joinColumn =>
    obtain ⟨t, there, owner, _, _, _, table, refers⟩ := refersTo_of_resolve resolved run
    have target : t.name = a.target := by simpa using List.find?_some there
    exact ⟨t, there, owner.trans named.symm, target.symm, table, .inl refers⟩
  | inverse name target mappedBy cardinality =>
    obtain ⟨found, column, atTarget, joined, rfl⟩ := resolve_inverse_ok run
    obtain ⟨t, there, other⟩ := find?_resolved resolved atTarget
    obtain ⟨b, inside, behind⟩ := Definition.association_of_resolve other (Definition.mem_links_of_joinColumn? joined)
    obtain ⟨back, here, _, leadsBack, bName, bColumn, _, refers⟩ := refersTo_of_resolve resolved behind
    -- The owning association leads back to a definition of this name, and there is only one.
    obtain ⟨again, atOwner, alsoOwn⟩ := find?_resolved resolved (find?_of_nodup distinct listed)
    rw [leadsBack, atOwner] at here
    cases here
    cases alsoOwn.symm.trans own
    have target : t.name = target := by simpa using List.find?_some there
    have table := (Definition.table_of_resolve other).symm
    refine ⟨t, there, named.symm, target.symm, table, .inr ⟨b, inside, ?_, refers⟩⟩
    exact ⟨congrArg some bName.symm, leadsBack, refers.column.symm, bColumn.symm, refers.type.symm⟩

end

namespace Registry

variable {definitions : List Definition} {registry : Registry}

/-- The entities of a registry are its definitions, checked and resolved one by one. -/
theorem build_eq_ok : build definitions = .ok registry ↔ checkDefinitions [] definitions = .ok () ∧
    List.Forall₂ (fun d e => d.resolve definitions = .ok e) definitions registry.entities := by
  constructor
  · intro built
    obtain ⟨_, passed, built⟩ := Except.bind_eq_ok.mp built
    obtain ⟨entities, resolved, built⟩ := Except.bind_eq_ok.mp built
    cases built
    exact ⟨passed, Except.mapM_eq_ok.mp resolved⟩
  · rintro ⟨passed, resolved⟩
    exact Except.bind_eq_ok.mpr ⟨(), passed, Except.bind_eq_ok.mpr ⟨_, Except.mapM_eq_ok.mpr resolved, rfl⟩⟩

theorem resolve_of_mem (built : build definitions = .ok registry) {e : Entity} (member : e ∈ registry.entities) :
    ∃ d ∈ definitions, d.resolve definitions = .ok e :=
  Except.mem_of_mapM (Except.mapM_eq_ok.mpr (build_eq_ok.mp built).2) member

/-- Entities stand in the order of their definitions. -/
theorem names_build (built : build definitions = .ok registry) :
    registry.entities.map (·.name) = definitions.map (·.name) :=
  map_eq_of_forall₂ (build_eq_ok.mp built).2 fun _ _ => Definition.name_of_resolve

/-- Every association of an entity leads to an entity that the registry describes. -/
theorem leads_build (built : build definitions = .ok registry) {e : Entity} (member : e ∈ registry.entities)
    {a : Association} (listed : a ∈ e.associations) : ∃ t, registry.describe a.target = .ok t ∧ a.Leads e t := by
  obtain ⟨passed, resolved⟩ := build_eq_ok.mp built
  obtain ⟨d, inside, own⟩ := resolve_of_mem built member
  obtain ⟨link, _, linked⟩ := Definition.link_of_resolve own listed
  obtain ⟨t, there, leads⟩ :=
    Link.leads_of_resolve (checkDefinitions_eq_ok.mp passed).2.1 resolved inside own linked
  exact ⟨t, describe_eq_ok.mpr there, leads⟩

theorem leads_of_describe (built : build definitions = .ok registry) {e t : Entity} (member : e ∈ registry.entities)
    {a : Association} (listed : a ∈ e.associations) (target : registry.describe a.target = .ok t) : a.Leads e t := by
  obtain ⟨other, there, leads⟩ := leads_build built member listed
  cases there.symm.trans target
  exact leads

/-- The table that an association leads to is that of the entity it leads to. -/
def TablesAgree (registry : Registry) : Prop := ∀ e, registry.Describes e → ∀ a ∈ e.associations, ∀ t,
  registry.describe a.target = .ok t → a.targetTable = t.table

theorem tablesAgree_build (built : build definitions = .ok registry) : registry.TablesAgree :=
  fun _ described _ listed _ target => (leads_of_describe built (mem_of_describe described) listed target).table

/-- The columns that an association relates are columns of its entity and of the entity it leads to. -/
def ColumnsAgree (registry : Registry) : Prop := ∀ e, registry.Describes e → ∀ a ∈ e.associations, ∀ t,
  registry.describe a.target = .ok t → a.ownerColumn ∈ e.selectedColumns ∧ a.targetColumn ∈ t.selectedColumns

end Registry

namespace Entity

theorem key_selected (e : Entity) : e.primaryKey.column ∈ e.selectedColumns :=
  List.mem_append_left _ (List.mem_map_of_mem (List.getElem_mem _))

theorem foreignKey_selected {e : Entity} {a : Association} (member : a ∈ e.associations)
    (owning : a.isOwning = true) : a.ownerColumn ∈ e.selectedColumns :=
  List.mem_append_right _ (List.mem_map_of_mem (List.mem_filter.mpr ⟨member, owning⟩))

end Entity

theorem Association.RefersTo.isOwning {a : Association} {t : Entity} (refers : a.RefersTo t) : a.isOwning = true := by
  rw [Association.isOwning, refers.owning]
  rfl

theorem Registry.columnsAgree_build {definitions : List Definition} {registry : Registry}
    (built : build definitions = .ok registry) : registry.ColumnsAgree := by
  intro e described a listed t target
  rcases (leads_of_describe built (mem_of_describe described) listed target).sides with
    refers | ⟨b, inside, mirrors, refers⟩
  · rw [refers.column]
    exact ⟨e.foreignKey_selected listed refers.isOwning, t.key_selected⟩
  · rw [mirrors.ownerColumn, refers.column, mirrors.targetColumn]
    exact ⟨e.key_selected, t.foreignKey_selected inside refers.isOwning⟩

end EntityMapper
