import EntityMapper.Proofs.Compile.Acceptance
import EntityMapper.Proofs.Compile.PathTables
import EntityMapper.Proofs.Schema.Members
import EntityMapper.Proofs.Session.LateRows

namespace EntityMapper

/-- The plan of the instances of an entity for which a path of their own has a value, by key. -/
def Plan.ofValue (source : Alias) (path : Path) (value : Value) : Plan :=
  ((Plan.ofEntity source).filter (some (.compare (.path path) .eq (.literal value)))).orderBy
    ⟨.path source.id, .ascending, none⟩

section ofValue

variable (registry : Registry) (source : Alias) (path : Path) (value : Value)

/-- A path of the source's own opens the scope of the source alone. -/
theorem Plan.scope_ofValue (own : path.hops = []) :
    Scope.ofPlan registry [] (.ofValue source path value) = .ok ⟨[source], [], []⟩ := by
  have fresh : Scope.declare [] .empty source = .ok ⟨[source], [], []⟩ := rfl
  have uses : (Plan.ofValue source path value).pathUses = [(path, false), (source.id, false)] := rfl
  have covered {s : Scope} : Scope.coverPath registry [] s path false = .ok s := by
    rw [Scope.coverPath, own]
    rfl
  have identified {s : Scope} : Scope.coverPath registry [] s source.id false = .ok s := rfl
  unfold Scope.ofPlan
  rw [uses, show (Plan.ofValue source path value).sources = [source] from rfl,
    show (Plan.ofValue source path value).joins = [] from rfl]
  simp only [List.isEmpty_cons, Bool.false_eq_true, if_false, List.foldlM_cons, List.foldlM_nil, fresh, Except.ok_bind,
    covered, identified]
  rfl

variable {source path}

theorem Term.accepted_own (clause : Clause) (root : path.root = source.name)
    (entity : path.rootEntity = source.entity.name) (own : path.hops = []) :
    Accepted (ofExpr registry [⟨[source], [], []⟩] clause (.path path)) := by
  have found : (⟨[source], [], []⟩ : Scope).find? path.root = some source := by simp [Scope.find?, root]
  refine accepted_map.mpr ⟨path.root, ?_⟩
  rw [Scope.locate_found found, own, entity, bne_self_eq_false, if_neg Bool.false_ne_true]
  rfl

variable (source path)

theorem Plan.accepted_ofValue (root : path.root = source.name) (entity : path.rootEntity = source.entity.name)
    (own : path.hops = []) : Accepted (resolve registry (.ofValue source path value)) := by
  refine Select.accepted_ofPlan.mpr
    ⟨_, scope_ofValue registry source path value own, ⟨?_, ⟨(), rfl⟩, ⟨[], rfl⟩⟩, ⟨?_, ?_, ?_, ?_, ?_, ?_⟩⟩
  · have declared : ((⟨[source], [], []⟩ : Scope).has source.name) = true := by simp [Scope.has, Scope.names]
    exact ⟨(), by simp [checkProjections, ofValue, ofEntity, filter, orderBy, addSources, select, Projection.source?,
      declared]⟩
  · exact List.forall_mem_singleton.mpr ⟨_, rfl⟩
  · exact fun _ none => absurd none List.not_mem_nil
  · exact List.forall_mem_singleton.mpr
      (Condition.accepted_compare.mpr ⟨Term.accepted_own registry .filter root entity own, ⟨_, rfl⟩⟩)
  · exact fun _ none => absurd none List.not_mem_nil
  · exact fun _ none => absurd none List.not_mem_nil
  · exact fun _ => List.forall_mem_singleton.mpr
      ((SortKey.accepted_ordered ⟨.path source.id, .ascending, none⟩).mpr
        (Term.accepted_own registry .orderBy rfl rfl rfl))

theorem Plan.compile_ofValue (d : Dialect) (root : path.root = source.name)
    (entity : path.rootEntity = source.entity.name) (own : path.hops = []) :
    ∃ query, compile registry d (.ofValue source path value) = .ok query ∧
      query.layout = .ofProjections [.entity source] [] := by
  obtain ⟨s, resolved⟩ := accepted_ofValue registry source path value root entity own
  have compiled : compile registry d (.ofValue source path value) =
      .ok ⟨.ofTokens d (s.tokens d false), .ofProjections [.entity source] s.fetches⟩ := by
    unfold compile
    rw [resolved]
    rfl
  exact ⟨_, compiled, compile_unfetched compiled rfl⟩

end ofValue

/-- The foreign key of an owning association is the path to the key of its target. -/
theorem Alias.foreignKey_owning {registry : Registry} {s : Alias} {b : Association} {e : Entity}
    (follows : s.entity.association b.name = .ok b) (owning : b.isOwning = true)
    (returns : registry.describe b.target = .ok e) (identified : e.field e.primaryKey.name = .ok e.primaryKey) :
    foreignKey registry s b.name = .ok
      ⟨s.name, s.entity.name, [], s!"{b.name}.{e.primaryKey.name}", b.ownerColumn, e.primaryKey.type⟩ := by
  have association : Alias.association registry s b.name = .ok ⟨s, [], b, e⟩ := by
    rw [Alias.association, follows, Except.ok_bind, returns]
    rfl
  rw [foreignKey, follows, Except.ok_bind, owning, Bool.not_true, if_neg Bool.false_ne_true, returns, Except.ok_bind,
    association, Except.ok_bind, AssociationPath.field, identified, Except.ok_bind]
  simp [owning]

theorem checkOperands_literal (operation : String) {path : Path} {value : Value} (present : value.isNull = false)
    (typed : value.HasType path.type) : checkOperands operation (.path path) (.literal value) = .ok () := by
  have usable : (Expr.literal value).isNullLiteral = false := by
    cases value with
    | null => cases present
    | bool | int | float | text => rfl
  rw [checkOperands, usable, show (Expr.path path).isNullLiteral = false from rfl, Bool.or_false,
    if_neg Bool.false_ne_true, Expr.dataType?, Expr.dataType?, checkTypes_of_hasType typed]

namespace Session

variable {definitions : List Definition} {registry : Registry} {e t : Entity} {a : Association} {mappedBy : String}
  {key : Value}

/-- The instances behind an inverse association can be asked for by the key of its owner. -/
theorem inversePlan_built (built : Registry.build definitions = .ok registry) (described : registry.Describes e)
    (listed : a ∈ e.associations) (inverse : a.mappedBy = some mappedBy) (leads : registry.describe a.target = .ok t)
    (named : t.table ≠ "") (present : key.isNull = false) (typed : key.HasType e.primaryKey.type) (d : Dialect) :
    ∃ plan query, inversePlan registry t a.target mappedBy key = .ok plan ∧ compile registry d plan = .ok query ∧
      query.layout = .ofProjections [.entity ⟨t.table, t⟩] [] := by
  obtain ⟨b, owned, rfl, owning, back⟩ := Registry.owning_of_mappedBy built described listed inverse leads
  have source : registry.entityAs a.target t.table = .ok ⟨t.table, t⟩ := by
    rw [Registry.entityAs, leads, Except.ok_bind, if_neg (by simpa using named)]
  have returns : registry.describe b.target = .ok e := by
    rw [back]
    exact described
  let path : Path := ⟨t.table, t.name, [], s!"{b.name}.{e.primaryKey.name}", b.ownerColumn, e.primaryKey.type⟩
  have reached : Alias.foreignKey registry ⟨t.table, t⟩ b.name = .ok path :=
    Alias.foreignKey_owning (Registry.association_of_mem built (Registry.mem_of_describe leads) owned) owning returns
      (Registry.field_primaryKey built (Registry.mem_of_describe described))
  have condition : Expr.compare (.path path) .eq (.literal key) = .ok (.compare (.path path) .eq (.literal key)) := by
    rw [Expr.compare, checkOperands_literal _ present typed]
    rfl
  obtain ⟨query, compiled, layout⟩ := Plan.compile_ofValue registry ⟨t.table, t⟩ path key d rfl rfl rfl
  refine ⟨.ofValue ⟨t.table, t⟩ path key, query, ?_, compiled, layout⟩
  rw [inversePlan, source, Except.ok_bind, reached, Except.ok_bind, condition]
  rfl

/-- Without a name for the target's table nothing is asked for. -/
theorem inversePlan_unnamed (leads : registry.describe a.target = .ok t) (unnamed : t.table = "") :
    inversePlan registry t a.target mappedBy key = .error (.invalidArgument .emptyAlias) := by
  rw [inversePlan, Registry.entityAs, leads, Except.ok_bind, unnamed]
  rfl

end Session

end EntityMapper
