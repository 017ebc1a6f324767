import EntityMapper.Proofs.Schema.Members
import EntityMapper.Proofs.Session.RowKeys

namespace EntityMapper

/-- The types that the selected columns of an entity are read with: those of its fields, then those of the keys that its
foreign keys refer to. -/
def Entity.columnTypes (e : Entity) : List DataType := e.fields.map (·.type) ++ e.foreignKeys.map (·.keyType)

/-- Values, each brought to its type. -/
def coerceAll (types : List DataType) (raw : List Value) : Except Error (List Value) :=
  (types.zip raw).mapM fun column => column.1.coerce column.2

theorem coerceAll_append {types more : List DataType} {raw others values keys : List Value}
    (aligned : types.length = raw.length) (first : coerceAll types raw = .ok values)
    (behind : coerceAll more others = .ok keys) : coerceAll (types ++ more) (raw ++ others) = .ok (values ++ keys) := by
  unfold coerceAll at first behind ⊢
  rw [List.zip_append aligned, List.mapM_append, first, Except.ok_bind, behind]
  rfl

theorem length_coerceAll {types : List DataType} {raw values : List Value} (run : coerceAll types raw = .ok values) :
    values.length = min types.length raw.length := by
  rw [← (Except.mapM_eq_ok.mp run).length_eq, List.length_zip]

namespace Entity

variable {e : Entity}

/-- The value of a row that an owning association is read from. -/
def rawKey (e : Entity) (columns : List Value) (a : Association) : Value :=
  ((e.foreignKeyOffset? a.name).bind (columns[·]?)).getD .null

theorem map_rawKey (distinct : (e.associations.map (·.name)).Nodup) {columns : List Value}
    (length : columns.length = e.columnCount) :
    e.foreignKeys.map (e.rawKey columns) = columns.drop e.fields.length := by
  refine List.ext_getElem ?_ fun n inside there => ?_
  · rw [List.length_map, List.length_drop, length, columnCount, Nat.add_sub_cancel_left]
  · rw [List.length_map] at inside
    have bound : e.fields.length + n < columns.length := by
      rw [length, columnCount]
      omega
    rw [List.getElem_map, rawKey, foreignKeyOffset?_getElem distinct inside, Option.bind_some,
      List.getElem?_eq_getElem bound, Option.getD_some, List.getElem_drop]

end Entity

namespace Hydration

theorem fieldValues_eq (fields : List Field) (columns : List Value) :
    fieldValues fields columns = coerceAll (fields.map (·.type)) columns := by
  induction fields generalizing columns with
  | nil => rfl
  | cons f rest ih =>
    cases columns with
    | nil => rfl
    | cons v others =>
      unfold coerceAll at ih ⊢
      rw [fieldValues, ih, List.map_cons, List.zip_cons_cons, List.mapM_cons]
      rfl

/-- A foreign key is written as the value that it was read as, whether that is null or leads to an instance. -/
theorem foreignKey_stateOf {e : Entity} {id : Value} {columns : List Value} {a : Association}
    {state : AssociationState} (read : stateOf e id columns a = .ok state) (owning : a.isOwning = true) :
    ∃ key, a.keyType.coerce (e.rawKey columns a) = .ok key ∧ ∀ (heap : Heap) i, heap.foreignKey i a state = .ok key := by
  unfold stateOf at read
  rw [owning, Bool.not_true, if_neg Bool.false_ne_true] at read
  obtain ⟨key, coerced, read⟩ := Except.bind_eq_ok.mp read
  refine ⟨key, coerced, fun heap i => ?_⟩
  cases read
  cases key with
  | null => rfl
  | bool | int | float | text => rfl

/-- The foreign keys of an instance are written in the order of its associations, each as the value it was read as. -/
theorem foreignKeyAssignments_statesOf {e : Entity} {id : Value} {columns : List Value}
    {associations : List Association} {states : List AssociationState}
    (read : statesOf e id columns associations = .ok states) :
    ∃ keys, coerceAll ((associations.filter (·.isOwning)).map (·.keyType))
        ((associations.filter (·.isOwning)).map (e.rawKey columns)) = .ok keys ∧
      ∀ (heap : Heap) i, heap.foreignKeyAssignments i (associations.zip states) =
        .ok (((associations.filter (·.isOwning)).map (·.ownerColumn)).zip keys) := by
  induction associations generalizing states with
  | nil => exact ⟨[], rfl, fun _ _ => rfl⟩
  | cons a rest ih =>
    obtain ⟨state, own, read⟩ := Except.bind_eq_ok.mp read
    obtain ⟨others, later, read⟩ := Except.bind_eq_ok.mp read
    cases read
    obtain ⟨keys, coerced, written⟩ := ih later
    cases owning : a.isOwning with
    | false =>
      rw [List.filter_cons_of_neg (by simp [owning])]
      refine ⟨keys, coerced, fun heap i => ?_⟩
      rw [List.zip_cons_cons, Heap.foreignKeyAssignments, owning, if_neg Bool.false_ne_true]
      exact written heap i
    | true =>
      obtain ⟨key, read, ownKey⟩ := foreignKey_stateOf own owning
      rw [List.filter_cons_of_pos owning]
      refine ⟨key :: keys, ?_, fun heap i => ?_⟩
      · have first : coerceAll [a.keyType] [e.rawKey columns a] = .ok [key] := by simp [coerceAll, read]
        have both := coerceAll_append rfl first coerced
        exact both
      · rw [List.zip_cons_cons, Heap.foreignKeyAssignments, if_pos owning, ownKey, Except.ok_bind, written]
        rfl

end Hydration

/-- The fields of an instance that has a key are all written. -/
theorem Heap.fieldAssignments_of_id {i : Instance} (usable : i.id.isNull = false) :
    fieldAssignments i = (i.entity.fields.map (·.column)).zip i.values := by
  have all : (i.entity.fields.zip i.values).zipIdx.filter (fun entry =>
      !(entry.2 == i.entity.key.val && entry.1.2.isNull)) = (i.entity.fields.zip i.values).zipIdx := by
    refine List.filter_eq_self.mpr ?_
    rintro ⟨⟨field, value⟩, index⟩ member
    have atIndex := List.mem_zipIdx_iff_getElem?.mp member
    have read : i.values[index]? = some value := (List.getElem?_zip_eq_some.mp atIndex).2
    by_cases own : index = i.entity.key.val
    · have same : i.id = value := by
        rw [Instance.id, Instance.valueAt, ← own, List.getD_eq_getElem?_getD, read, Option.getD_some]
      simp [same ▸ usable]
    · simp [own]
  have unzipped : (i.entity.fields.zip i.values).zipIdx.map (fun entry => (entry.1.1.column, entry.1.2)) =
      (i.entity.fields.zip i.values).map fun field => (field.1.column, field.2) := by
    conv_rhs => rw [← List.zipIdx_map_fst 0 (i.entity.fields.zip i.values), List.map_map]
    rfl
  refine (congrArg (List.map _) all).trans (unzipped.trans ?_)
  rw [List.zip_map_left]
  rfl

namespace Hydration

/-- What an instance that is read from a row writes. -/
theorem insertAssignments_instanceOf {e : Entity} (distinct : (e.associations.map (·.name)).Nodup) {id : Value}
    {columns : List Value} (length : columns.length = e.columnCount) {i : Instance}
    (made : instanceOf e id columns = .ok i) (usable : i.id.isNull = false) :
    ∃ values, coerceAll e.columnTypes columns = .ok values ∧
      ∀ heap : Heap, heap.insertAssignments i = .ok (e.selectedColumns.zip values) := by
  obtain ⟨fields, read, made⟩ := Except.bind_eq_ok.mp made
  obtain ⟨states, related, made⟩ := Except.bind_eq_ok.mp made
  cases made
  obtain ⟨keys, coerced, written⟩ := foreignKeyAssignments_statesOf related
  have enough : e.fields.length ≤ columns.length := length ▸ Nat.le_add_right _ _
  have front : (e.fields.map (·.type)).length = (columns.take e.fields.length).length := by
    rw [List.length_map, List.length_take_of_le enough]
  have first : coerceAll (e.fields.map (·.type)) (columns.take e.fields.length) = .ok fields := by
    have cut : (e.fields.map (·.type)).zip columns = (e.fields.map (·.type)).zip (columns.take e.fields.length) := by
      have same : (e.fields.map (·.type)).take e.fields.length = e.fields.map (·.type) :=
        List.take_of_length_le (Nat.le_of_eq (List.length_map _))
      refine List.zip_eq_zip_take_min.trans ?_
      rw [List.length_map, Nat.min_eq_left enough, same]
    rw [← read, fieldValues_eq, coerceAll, coerceAll, cut]
  have behind : coerceAll (e.foreignKeys.map (·.keyType)) (columns.drop e.fields.length) = .ok keys := by
    rw [← e.map_rawKey distinct length]
    exact coerced
  have aligned : (e.fields.map (·.column)).length = fields.length := by
    rw [length_coerceAll first, ← front, Nat.min_self, List.length_map, List.length_map]
  refine ⟨fields ++ keys, ?_, fun heap => ?_⟩
  · have both := coerceAll_append front first behind
    rwa [List.take_append_drop] at both
  · rw [Heap.insertAssignments, written, Except.ok_bind, Heap.fieldAssignments_of_id usable, Entity.selectedColumns,
      List.zip_append aligned]
    rfl

end Hydration

/-- A new instance is written as it was read: its columns in the order in which they are selected, each with the value of
the row brought to the type of its field or, for a foreign key, to that of the key it refers to. -/
theorem Hydration.insertAssignments_entity {definitions : List Definition} {registry : Registry}
    (built : Registry.build definitions = .ok registry) {e : Entity} (member : e ∈ registry.entities)
    {columns : List Value} (length : columns.length = e.columnCount) {h k : Hydration} {r : Ref}
    (read : entity e columns h = .ok (some r) k) (absent : ¬h.heap.Holds r) (held : k.heap.Holds r) :
    ∃ values, coerceAll e.columnTypes columns = .ok values ∧
      ∀ heap : Heap, heap.insertAssignments (k.heap.get r) = .ok (e.selectedColumns.zip values) := by
  obtain reads := reads_entity read
  cases reads with
  | known => exact absurd held absent
  | fresh keyed free coerced usable made =>
    obtain ⟨_, _, _, same⟩ := instanceOf_id made coerced usable
    rw [Heap.get_allocated]
    exact insertAssignments_instanceOf (Registry.nodup_associations built member) length made (same ▸ usable)

/-- Issues have their key behind another field and an inverse association between two owning ones. -/
def boardDefinitions : List Definition := [
  ⟨"User", "users", [.id "id" .integer]⟩,
  ⟨"Issue", "issues", [.field "urgent" "is_urgent" .bool, .reference "author" "User" "author_id", .id "id" .integer,
    .inverse "replies" "Reply" "issue" .many, .reference "assignee" "User" "assignee_id"]⟩,
  ⟨"Reply", "replies", [.id "id" .integer, .reference "issue" "Issue" "issue_id"]⟩]

def board : Registry := (Registry.build boardDefinitions).toOption.getD default

def issueEntity : Entity := (board.find? "Issue").getD default

/-- An urgent issue that has an assignee and no author. -/
def issueRow : List Value := [.int 1, .int 7, .null, .int 3]

def issueRead : Hydration :=
  leaves (Hydration.entity issueEntity issueRow) ⟨.empty, .empty, [], []⟩

theorem insertAssignments_issue : Registry.build boardDefinitions = .ok board ∧
    (∃ values, coerceAll issueEntity.columnTypes issueRow = .ok values ∧
      ∀ heap : Heap, heap.insertAssignments (issueRead.heap.get ⟨0⟩) = .ok (issueEntity.selectedColumns.zip values)) ∧
    Heap.empty.insertAssignments (issueRead.heap.get ⟨0⟩) =
      .ok [("is_urgent", .bool true), ("id", .int 7), ("author_id", .null), ("assignee_id", .int 3)] := by
  have built : Registry.build boardDefinitions = .ok board := rfl
  have read : Hydration.entity issueEntity issueRow ⟨.empty, .empty, [], []⟩ = .ok (some ⟨0⟩) issueRead := rfl
  exact ⟨built, Hydration.insertAssignments_entity built (List.mem_cons_of_mem _ List.mem_cons_self) rfl read
    (Nat.not_lt_zero 0) Nat.zero_lt_one, rfl⟩

end EntityMapper
