import EntityMapper.Proofs.Schema.Registry

namespace EntityMapper

/-- The names of fields, then of associations. -/
def Entity.memberNames (e : Entity) : List String := e.fields.map (·.name) ++ e.associations.map (·.name)

theorem Definition.memberNames_of_resolve {all : List Definition} {d : Definition} {e : Entity}
    (run : d.resolve all = .ok e) : e.memberNames = d.memberNames := by
  obtain ⟨key, associations, _, rfl, links⟩ := resolve_ok run
  have names : associations.map (·.name) = d.links.map (·.name) :=
    map_eq_of_forall₂ links fun _ _ => Link.name_of_resolve
  rw [Entity.memberNames, names, memberNames]

/-- Where names are unique, a foreign key is found behind the fields at its own place among the foreign keys. -/
theorem Entity.foreignKeyOffset?_getElem {e : Entity} (distinct : (e.associations.map (·.name)).Nodup) {n : Nat}
    (inside : n < e.foreignKeys.length) :
    e.foreignKeyOffset? (e.foreignKeys[n]).name = some (e.fields.length + n) := by
  have apart : (e.foreignKeys.map (·.name)).Nodup := distinct.sublist (List.filter_sublist.map _)
  have first : e.foreignKeys.findIdx? (·.name == (e.foreignKeys[n]).name) = some n := by
    refine List.findIdx?_eq_some_iff_getElem.mpr ⟨inside, beq_self_eq_true _, fun earlier before same => ?_⟩
    have named : (e.foreignKeys[earlier]).name = (e.foreignKeys[n]).name := by simpa using same
    have there : n < (e.foreignKeys.map (·.name)).length := by rwa [List.length_map]
    have here : earlier < (e.foreignKeys.map (·.name)).length := Nat.lt_trans before there
    have repeated : (e.foreignKeys.map (·.name))[earlier] = (e.foreignKeys.map (·.name))[n] := by simpa using named
    exact absurd (apart.getElem_inj_iff.mp repeated) (Nat.ne_of_lt before)
  rw [foreignKeyOffset?, first, Option.map_some]

namespace Registry

variable {definitions : List Definition} {registry : Registry}

theorem nodup_names (built : build definitions = .ok registry) : (registry.entities.map (·.name)).Nodup := by
  rw [names_build built]
  exact (checkDefinitions_eq_ok.mp (build_eq_ok.mp built).1).2.1

/-- The members of an entity have names of their own. -/
theorem nodup_memberNames (built : build definitions = .ok registry) {e : Entity} (member : e ∈ registry.entities) :
    e.memberNames.Nodup := by
  obtain ⟨d, listed, own⟩ := resolve_of_mem built member
  rw [Definition.memberNames_of_resolve own]
  exact ((checkDefinitions_eq_ok.mp (build_eq_ok.mp built).1).1 d listed).2

theorem nodup_associations (built : build definitions = .ok registry) {e : Entity} (member : e ∈ registry.entities) :
    (e.associations.map (·.name)).Nodup :=
  (List.nodup_append.mp (nodup_memberNames built member)).2.1

theorem association_of_mem (built : build definitions = .ok registry) {e : Entity} (member : e ∈ registry.entities)
    {a : Association} (listed : a ∈ e.associations) : e.association a.name = .ok a :=
  Entity.association_eq_ok.mpr (find?_of_nodup (nodup_associations built member) listed)

theorem field_primaryKey (built : build definitions = .ok registry) {e : Entity} (member : e ∈ registry.entities) :
    e.field e.primaryKey.name = .ok e.primaryKey := by
  have distinct := (List.nodup_append.mp (nodup_memberNames built member)).1
  have found : e.field? e.primaryKey.name = some e.primaryKey := find?_of_nodup distinct (List.getElem_mem _)
  rw [Entity.field, found]
  rfl

/-- A collection is the inverse side of an association. -/
theorem inverse_of_many (built : build definitions = .ok registry) {e : Entity} (member : e ∈ registry.entities)
    {a : Association} (listed : a ∈ e.associations) (many : a.cardinality = .many) : a.isOwning = false := by
  obtain ⟨t, _, leads⟩ := leads_build built member listed
  rcases leads.sides with refers | ⟨b, _, mirrors, _⟩
  · cases refers.single.symm.trans many
  · rw [Association.isOwning, mirrors.mapped]
    rfl

/-- What an inverse association is mapped by is an owning association of the entity that it leads to, and leads back. -/
theorem owning_of_mappedBy (built : build definitions = .ok registry) {e t : Entity} (described : registry.Describes e)
    {a : Association} (listed : a ∈ e.associations) {mappedBy : String} (inverse : a.mappedBy = some mappedBy)
    (target : registry.describe a.target = .ok t) :
    ∃ b ∈ t.associations, b.name = mappedBy ∧ b.isOwning = true ∧ b.target = e.name := by
  have leads := leads_of_describe built (mem_of_describe described) listed target
  rcases leads.sides with refers | ⟨b, inside, mirrors, refers⟩
  · cases refers.owning.symm.trans inverse
  · cases mirrors.mapped.symm.trans inverse
    exact ⟨b, inside, rfl, refers.isOwning, mirrors.back.trans leads.owner⟩

/-- No inverse association has the name that another one is mapped by. -/
theorem name_ne_mappedBy (built : build definitions = .ok registry) {e t : Entity} (described : registry.Describes e)
    {a : Association} (listed : a ∈ e.associations) {mappedBy : String} (inverse : a.mappedBy = some mappedBy)
    (target : registry.describe a.target = .ok t) {c : Association} (inside : c ∈ t.associations)
    (seen : c.isOwning = false) : c.name ≠ mappedBy := by
  intro same
  obtain ⟨b, owned, named, owning, _⟩ := owning_of_mappedBy built described listed inverse target
  have distinct := nodup_associations built (mem_of_describe target)
  have equal : b = c := List.inj_on_of_nodup_map distinct owned inside (named.trans same.symm)
  rw [equal, seen] at owning
  cases owning

end Registry

end EntityMapper
