import EntityMapper.Proofs.Schema.Graph
import EntityMapper.Proofs.Session.Changes
import EntityMapper.Proofs.Session.ColumnOrder

namespace EntityMapper

/-- The column that a member is stored in. An inverse association has none. -/
def Member.column? : Member → Option String
  | id name _ => some name
  | field _ column _ => some column
  | reference _ _ joinColumn => some joinColumn
  | inverse .. => none

def Link.joinColumn? : Link → Option String
  | owning _ _ joinColumn => some joinColumn
  | inverse .. => none

namespace Definition

/-- The columns of a definition in the order in which its members declare them. -/
def columns (d : Definition) : List String := d.members.filterMap Member.column?

theorem columns_perm (d : Definition) :
    d.columns.Perm (d.fields.map (·.column) ++ d.links.filterMap Link.joinColumn?) := by
  unfold columns fields links
  induction d.members with
  | nil => exact .refl _
  | cons m rest ih =>
    cases m with
    | id name type => exact ih.cons name
    | field name column type => exact ih.cons column
    | reference name target joinColumn => exact (ih.cons joinColumn).trans List.perm_middle.symm
    | inverse => exact ih

theorem Declares.selectedColumns_perm {d : Definition} {e : Entity} (declares : d.Declares e) :
    e.selectedColumns.Perm d.columns := by
  have keys : e.foreignKeys.map (·.ownerColumn) = d.links.filterMap Link.joinColumn? := by
    have linked := declares.associations
    unfold Entity.foreignKeys
    generalize d.links = links, e.associations = associations at linked
    induction linked with
    | nil => rfl
    | @cons link a _ _ own _ ih =>
      cases link with
      | owning =>
        obtain ⟨_, _, owning, _, column⟩ := own
        have kept : a.isOwning = true := by rw [Association.isOwning, owning]; rfl
        rw [List.filter_cons_of_pos kept, List.map_cons, ih, column]
        rfl
      | inverse =>
        obtain ⟨_, _, mapped, _⟩ := own
        have dropped : ¬a.isOwning = true := by simp [Association.isOwning, mapped]
        rw [List.filter_cons_of_neg dropped, ih]
        rfl
  rw [Entity.selectedColumns, keys, declares.fields]
  exact d.columns_perm.symm

end Definition

/-- Columns are pairwise distinct exactly if each of them leads back to its member. -/
theorem StoredMember.nodup_iff_foundBy {e : Entity} :
    e.selectedColumns.Nodup ↔ ∀ m : StoredMember, m.DeclaredBy e → m.FoundBy e (m.column e) := by
  refine ⟨fun distinct _ => foundBy_column distinct, fun found => ?_⟩
  have injective : ∀ m n : StoredMember, m.DeclaredBy e → n.DeclaredBy e → m.column e = n.column e → m = n :=
    fun m n first second same => (found m first).unique (same ▸ found n second)
  refine List.nodup_append.mpr ⟨?_, ?_, ?_⟩
  · refine List.pairwise_map.mpr (List.pairwise_iff_getElem.mpr fun i j first second before same => ?_)
    have equal := injective (.field i) (.field j) first second (by simpa [column, first, second] using same)
    cases equal
    exact Nat.lt_irrefl i before
  · refine List.pairwise_map.mpr (List.pairwise_filter.mpr (List.pairwise_iff_getElem.mpr ?_))
    intro i j first second before owns alsoOwns same
    have equal := injective (.reference i) (.reference j) ⟨_, List.getElem?_eq_getElem first, owns⟩
      ⟨_, List.getElem?_eq_getElem second, alsoOwns⟩ (by simpa [column, first, second] using same)
    cases equal
    exact Nat.lt_irrefl i before
  · intro fieldColumn ofField keyColumn ofKey same
    obtain ⟨f, listed, rfl⟩ := List.mem_map.mp ofField
    obtain ⟨a, member, rfl⟩ := List.mem_map.mp ofKey
    obtain ⟨i, first, rfl⟩ := List.mem_iff_getElem.mp listed
    obtain ⟨inside, owns⟩ := List.mem_filter.mp member
    obtain ⟨j, second, rfl⟩ := List.mem_iff_getElem.mp inside
    have equal := injective (.field i) (.reference j) first ⟨_, List.getElem?_eq_getElem second, owns⟩
      (by simpa [column, first, second] using same)
    cases equal

namespace Heap

theorem foreignKeyAssignments_columns {h : Heap} {i : Instance} {associations : List Association}
    {states : List AssociationState} (aligned : states.length = associations.length) {keys : Assignments}
    (run : h.foreignKeyAssignments i (associations.zip states) = .ok keys) :
    keys.map (·.1) = (associations.filter (·.isOwning)).map (·.ownerColumn) := by
  induction associations generalizing states keys with
  | nil =>
    cases run
    rfl
  | cons a rest ih =>
    cases states with
    | nil => cases aligned
    | cons state others =>
      have later := Nat.succ.inj aligned
      rw [List.zip_cons_cons, foreignKeyAssignments] at run
      cases owning : a.isOwning with
      | true =>
        rw [if_pos owning] at run
        obtain ⟨key, _, run⟩ := Except.bind_eq_ok.mp run
        obtain ⟨more, taken, run⟩ := Except.bind_eq_ok.mp run
        cases run
        rw [List.filter_cons_of_pos owning, List.map_cons, List.map_cons, ih later taken]
      | false =>
        rw [owning, if_neg Bool.false_ne_true] at run
        rw [List.filter_cons_of_neg (by simp [owning]), ih later run]

theorem fieldAssignments_columns {i : Instance} (values : i.values.length = i.entity.fields.length) :
    ((fieldAssignments i).map (·.1)).Sublist (i.entity.fields.map (·.column)) := by
  have all : ((i.entity.fields.zip i.values).zipIdx.map Prod.fst).map (fun field => field.1.column) =
      i.entity.fields.map (·.column) := by
    have unzipped := List.map_fst_zip (Nat.le_of_eq values.symm)
    rw [List.zipIdx_map_fst, ← congrArg (List.map Field.column) unzipped, List.map_map]
    rfl
  rw [← all, List.map_map, fieldAssignments, List.map_map]
  exact List.filter_sublist.map _

/-- The insertion of an instance lists selected columns in their order, and all of them if the instance has its key. -/
theorem insertAssignments_columns {h : Heap} {i : Instance} (values : i.values.length = i.entity.fields.length)
    (states : i.states.length = i.entity.associations.length) {assignments : Assignments}
    (run : h.insertAssignments i = .ok assignments) :
    (assignments.map (·.1)).Sublist i.entity.selectedColumns ∧
      (i.id.isNull = false → assignments.map (·.1) = i.entity.selectedColumns) := by
  obtain ⟨keys, taken, run⟩ := Except.bind_eq_ok.mp run
  cases run
  rw [List.map_append, foreignKeyAssignments_columns states taken]
  refine ⟨(fieldAssignments_columns values).append (.refl _), fun keyed => ?_⟩
  have enough : (i.entity.fields.map (·.column)).length ≤ i.values.length := by simp [values]
  rw [fieldAssignments_of_id keyed, List.map_fst_zip enough]
  rfl

end Heap

/-- What depends on the columns of an entity being pairwise distinct, which its definition alone decides: a changed column
is looked up as its member, and an insertion lists every column once. -/
structure Definition.ColumnsRelied (d : Definition) (e : Entity) : Prop where
  declared : e.selectedColumns.Nodup ↔ d.columns.Nodup
  tracked : e.selectedColumns.Nodup ↔ ∀ m : StoredMember, m.DeclaredBy e → m.FoundBy e (m.column e)
  inserted : ∀ (h : Heap) (i : Instance) (assignments : Assignments), i.entity = e →
    i.values.length = e.fields.length → i.states.length = e.associations.length →
    h.insertAssignments i = .ok assignments → (assignments.map (·.1)).Sublist e.selectedColumns ∧
      (i.id.isNull = false → assignments.map (·.1) = e.selectedColumns)

namespace Registry

/-- Members of an entity share a column exactly if its definition declares one twice: then, and only then, the column of
some member does not lead back to it, and insertions list a column again. -/
theorem columns_build {definitions : List Definition} {registry : Registry}
    (built : build definitions = .ok registry) :
    List.Forall₂ Definition.ColumnsRelied definitions registry.entities := by
  refine (declares_build built).imp fun d e declares => ?_
  refine ⟨declares.selectedColumns_perm.nodup_iff, StoredMember.nodup_iff_foundBy, ?_⟩
  rintro h i assignments rfl values states run
  exact Heap.insertAssignments_columns values states run

/-- Members know their team as an association and, in the same column, as a number. -/
def squadDefinitions : List Definition := [
  ⟨"Team", "team", [.id "id" .integer]⟩,
  ⟨"Member", "member", [.id "id" .integer, .field "team_id" "team_id" .integer, .reference "team" "Team" "team_id"]⟩]

def squad : Registry := (build squadDefinitions).toOption.getD default

def squadMember : Entity := (squad.find? "Member").getD default

/-- A session finds a member of team 5 and team 7, moves the member to that team and flushes. -/
def squadMove : Program :=
  (Program.start ⟨[.rows .empty, .rows ⟨["id", "team_id", "team_id"], [[.int 1, .int 5, .int 5]]⟩,
      .rows ⟨["id"], [[.int 7]]⟩, .rows .empty], []⟩).run
    [.begin "main" ⟨.postgres, .defaults⟩ squad, .request "main" (.find "Member" (.int 1)),
      .request "main" (.find "Team" (.int 7)), .setReference ⟨0⟩ "team" (some ⟨1⟩), .request "main" .flush]

theorem columns_build_board :
    List.Forall₂ Definition.ColumnsRelied boardDefinitions board.entities ∧ issueEntity.selectedColumns.Nodup :=
  ⟨columns_build rfl, by decide⟩

/-- Definitions are built although two members share a column. The new team of the member is then not written: the column
is taken for the field, which holds the old one. -/
theorem build_shares_column : build squadDefinitions = .ok squad ∧ squadMember ∈ squad.entities ∧
    ¬squadMember.selectedColumns.Nodup ∧
    squadMove.store.calls.getLast? =
      some (.statement ⟨"UPDATE \"member\" SET \"team_id\" = $1 WHERE \"id\" = $2", [.int 5, .int 1]⟩) := by
  refine ⟨rfl, by decide, by decide, ?_⟩
  decide +kernel

end Registry

end EntityMapper
