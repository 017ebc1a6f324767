import EntityMapper.Proofs.Session.FailedFlush
import EntityMapper.Proofs.Session.Lasting

namespace EntityMapper

/-- What an instance stores in a column of its own: a field, or an association that it owns, by index. -/
inductive StoredMember where
  | field (index : Nat)
  | reference (index : Nat)
  deriving DecidableEq, Repr

namespace StoredMember

def column (e : Entity) : StoredMember → String
  | field index => (e.fields.getD index default).column
  | reference index => (e.associations.getD index default).ownerColumn

/-- The current value. For a reference it is the key of the target, or null for none. -/
def value (h : Heap) (i : Instance) : StoredMember → Value
  | field index => i.valueAt index
  | reference index =>
    match i.stateAt index with
    | .one (some target) => (h.get target).id
    | _ => .null

def DeclaredBy (e : Entity) : StoredMember → Prop
  | field index => index < e.fields.length
  | reference index => ∃ a, e.associations[index]? = some a ∧ a.isOwning = true

/-- How a column leads back to its member: a field is looked for first. -/
def FoundBy (e : Entity) (column : String) : StoredMember → Prop
  | field index => e.fields.findIdx? (·.column == column) = some index
  | reference index => e.fields.findIdx? (·.column == column) = none ∧
      e.associations.findIdx? (fun a => a.isOwning && a.ownerColumn == column) = some index

/-- Where columns are pairwise distinct, the column of a member leads back to it. -/
theorem foundBy_column {e : Entity} (distinct : e.selectedColumns.Nodup) {m : StoredMember} (declared : m.DeclaredBy e) :
    m.FoundBy e (m.column e) := by
  obtain ⟨fields, keys, apart⟩ := List.nodup_append.mp distinct
  cases m with
  | field n =>
    have inside : n < e.fields.length := declared
    have own : (field n).column e = e.fields[n].column := by simp [column, inside]
    refine List.findIdx?_eq_some_iff_getElem.mpr ⟨inside, by simp [own], fun j before => ?_⟩
    have different := List.pairwise_iff_getElem.mp (List.pairwise_map.mp fields) j n (Nat.lt_trans before inside)
      inside before
    simpa [own] using different
  | reference n =>
    obtain ⟨a, found, owns⟩ := declared
    obtain ⟨inside, same⟩ := List.getElem?_eq_some_iff.mp found
    have own : (reference n).column e = a.ownerColumn := by simp [column, found]
    have member : a ∈ e.foreignKeys := List.mem_filter.mpr ⟨List.mem_of_getElem? found, owns⟩
    refine ⟨List.findIdx?_eq_none_iff.mpr fun f declared => ?_, ?_⟩
    · have different := apart _ (List.mem_map_of_mem declared) _ (List.mem_map_of_mem member)
      simpa [own] using different
    · refine List.findIdx?_eq_some_iff_getElem.mpr ⟨inside, by simp [own, same, owns], fun j before both => ?_⟩
      rw [Bool.and_eq_true] at both
      have different := List.pairwise_iff_getElem.mp (List.pairwise_filter.mp (List.pairwise_map.mp keys)) j n
        (Nat.lt_trans before inside) inside before both.1 (by rw [same]; exact owns)
      exact different (by simpa [own, same] using both.2)

theorem FoundBy.unique {e : Entity} {column : String} {m n : StoredMember} (first : m.FoundBy e column)
    (second : n.FoundBy e column) : m = n := by
  cases m with
  | field index =>
    cases n with
    | field other => exact congrArg field (Option.some.inj (first.symm.trans second))
    | reference other => cases first.symm.trans second.1
  | reference index =>
    cases n with
    | field other => cases first.1.symm.trans second
    | reference other => exact congrArg reference (Option.some.inj (first.2.symm.trans second.2))

theorem column_injective {e : Entity} (distinct : e.selectedColumns.Nodup) {m n : StoredMember}
    (first : m.DeclaredBy e) (second : n.DeclaredBy e) (same : m.column e = n.column e) : m = n :=
  (foundBy_column distinct first).unique (same ▸ foundBy_column distinct second)

end StoredMember

/-- A step of a program that concerns instances only, or a session that loads an association of one. -/
inductive Edit where
  | set (r : Ref) (field : String) (value : Value)
  | setReference (r : Ref) (association : String) (target : Option Ref)
  | load (r : Ref) (index : Nat) (state : AssociationState)
  deriving Repr

/-- The field that a value is for, where it holds another value. Values are compared as values of the field's type. -/
def Instance.reassigned? (i : Instance) (field : String) (value : Value) : Option StoredMember := do
  let index ← i.entity.fieldIndex? field
  let assigned ← ((i.entity.fields.getD index default).type.coerce value).toOption
  if i.valueAt index == assigned then none else some (.field index)

namespace Heap

/-- An edit that fails changes nothing. -/
def edit (h : Heap) : Edit → Heap
  | .set r field value => (h.set r field value).toOption.getD h
  | .setReference r association target => (h.setReference r association target).toOption.getD h
  | .load r index state => h.modify r (·.fill index state)

def edits (h : Heap) (history : List Edit) : Heap := history.foldl edit h

/-- The member of an instance that an edit changes: a field that is given a value other than the one it holds, or an
association that is given a target. -/
def changed? (h : Heap) (r : Ref) : Edit → Option StoredMember
  | .set s field value =>
    if s = r ∧ (h.set s field value).isOk then (h.get r).reassigned? field value else none
  | .setReference s association target =>
    if s = r ∧ (h.setReference s association target).isOk then
      ((h.get r).entity.associationIndex? association).map .reference
    else none
  | .load .. => none

/-- The members of an instance that edits change, one for each change, in order. -/
def changedBy (h : Heap) (r : Ref) : List Edit → List StoredMember
  | [] => []
  | a :: rest => (h.changed? r a).toList ++ (h.edit a).changedBy r rest

end Heap

namespace Instance

/-- The second instance has the entity, the standing and the changed columns of the first, and a target, or none, where
that has one. -/
structure Resembles (i j : Instance) : Prop where
  entity : j.entity = i.entity
  managed : j.managed = i.managed
  dirty : j.dirty = i.dirty
  one : ∀ index target, i.stateAt index = .one target → ∃ t, j.stateAt index = .one t

theorem Resembles.refl (i : Instance) : i.Resembles i := ⟨rfl, rfl, rfl, fun _ target same => ⟨target, same⟩⟩

theorem Resembles.trans {i j k : Instance} (first : i.Resembles j) (second : j.Resembles k) : i.Resembles k := by
  refine ⟨second.entity.trans first.entity, second.managed.trans first.managed, second.dirty.trans first.dirty, ?_⟩
  intro index target same
  obtain ⟨t, atMiddle⟩ := first.one index target same
  exact second.one index t atMiddle

theorem resembles_withState {i : Instance} {index : Nat} {state : AssociationState}
    (kept : ∀ target, i.stateAt index = .one target → ∃ t, state = .one t) : i.Resembles (i.withState index state) := by
  refine ⟨rfl, rfl, rfl, fun other target same => ?_⟩
  rw [stateAt_withState]
  split
  case isTrue own => exact kept target (own.1 ▸ same)
  case isFalse => exact ⟨target, same⟩

theorem resembles_fill (i : Instance) (index : Nat) (state : AssociationState) : i.Resembles (i.fill index state) := by
  unfold fill
  split
  case isTrue => exact .refl i
  case isFalse deferred =>
    refine resembles_withState fun target same => ?_
    rw [same] at deferred
    exact absurd rfl deferred

theorem resembles_link (i : Instance) (owning : Association) (owner : Ref) : i.Resembles (i.link owning owner) := by
  unfold link
  split
  · exact .refl i
  · split
    case h_1 index _ _ many =>
      unfold addItem
      split
      · split
        · exact .refl i
        · exact resembles_withState fun target same => by rw [many] at same; cases same
      · exact .refl i
    case h_2 => exact resembles_withState fun _ _ => ⟨_, rfl⟩
    case h_3 => exact .refl i

theorem resembles_unlink (i : Instance) (owning : Association) (owner : Ref) :
    i.Resembles (i.unlink owning owner) := by
  unfold unlink
  split
  · exact .refl i
  · split
    case h_1 many => exact resembles_withState fun target same => by rw [many] at same; cases same
    case h_2 =>
      split
      · exact resembles_withState fun _ _ => ⟨_, rfl⟩
      · exact .refl i
    case h_3 => exact .refl i

/-- What setting a field does: nothing where the field holds an equal value, else the field takes the value and its
column counts as changed. -/
theorem set_ok {i j : Instance} {field : String} {value : Value} (run : i.set field value = .ok j) :
    ∃ index c, i.entity.fieldIndex field = .ok index ∧
      (i.entity.fields.getD index default).type.coerce value = .ok c ∧
      ((i.valueAt index == c) = true ∧ j = i ∨ (i.valueAt index == c) = false ∧
        j = touch { i with values := i.values.set index c } (i.entity.fields.getD index default).column) := by
  obtain ⟨index, found, run⟩ := Except.bind_eq_ok.mp run
  obtain ⟨_, _, run⟩ := Except.bind_eq_ok.mp run
  obtain ⟨c, coerced, run⟩ := Except.bind_eq_ok.mp run
  refine ⟨index, c, found, coerced, ?_⟩
  split at run
  · cases run
  · split at run
    case isTrue equal => exact .inl ⟨equal, (Except.ok.inj run).symm⟩
    case isFalse other => exact .inr ⟨by simpa using other, (Except.ok.inj run).symm⟩

theorem dirty_touch {i : Instance} (managed : i.managed = true) (column : String) :
    (i.touch column).dirty = if column ∈ i.dirty then i.dirty else i.dirty ++ [column] := by
  by_cases known : column ∈ i.dirty
  · simp [touch, known]
  · simp [touch, managed, known]

theorem resembles_values (i : Instance) (values : List Value) (column : String) :
    (i.touch column).Resembles (touch { i with values } column) := by
  unfold touch
  dsimp only
  split
  · exact ⟨rfl, rfl, rfl, fun _ target same => ⟨target, same⟩⟩
  · exact ⟨rfl, rfl, rfl, fun _ target same => ⟨target, same⟩⟩

end Instance

namespace Heap

/-- The changed columns of a managed instance are those of the members in a history, each once, in the order of the
first change. -/
structure Tracks (h : Heap) (r : Ref) (e : Entity) (history : List StoredMember) : Prop where
  entity : (h.get r).entity = e
  managed : (h.get r).managed = true
  dirty : (h.get r).dirty = history.eraseDups.map (·.column e)
  declared : ∀ m ∈ history, m.DeclaredBy e
  one : ∀ index, .reference index ∈ history → ∃ target, (h.get r).stateAt index = .one target

variable {h k : Heap} {r : Ref} {e : Entity} {history : List StoredMember}

theorem Tracks.resembles (tracks : h.Tracks r e history) (like : (h.get r).Resembles (k.get r)) :
    k.Tracks r e history := by
  refine ⟨like.entity.trans tracks.entity, like.managed.trans tracks.managed, like.dirty.trans tracks.dirty,
    tracks.declared, fun index member => ?_⟩
  obtain ⟨target, same⟩ := tracks.one index member
  exact like.one index target same

theorem eraseDups_concat {α : Type} [DecidableEq α] (xs : List α) (a : α) :
    (xs ++ [a]).eraseDups = if a ∈ xs then xs.eraseDups else xs.eraseDups ++ [a] := by
  rw [List.eraseDups_append]
  by_cases known : a ∈ xs
  · simp [List.removeAll, known]
  · simp [List.removeAll, known, List.eraseDups_cons]

/-- A change of one more member is remembered unless the member has changed before. -/
theorem Tracks.touched (tracks : h.Tracks r e history) (distinct : e.selectedColumns.Nodup) {m : StoredMember}
    (declared : m.DeclaredBy e) (like : ((h.get r).touch (m.column e)).Resembles (k.get r))
    (one : ∀ index, m = .reference index → ∃ target, (k.get r).stateAt index = .one target) :
    k.Tracks r e (history ++ [m]) := by
  have known : m.column e ∈ (h.get r).dirty ↔ m ∈ history := by
    rw [tracks.dirty, List.mem_map]
    constructor
    · rintro ⟨n, member, same⟩
      rw [List.mem_eraseDups] at member
      exact StoredMember.column_injective distinct (tracks.declared n member) declared same ▸ member
    · intro member
      exact ⟨m, List.mem_eraseDups.mpr member, rfl⟩
  have alike := (h.get r).alike_touch (m.column e)
  refine ⟨like.entity.trans (alike.entity.trans tracks.entity), like.managed.trans (alike.managed.trans tracks.managed),
    ?_, ?_, ?_⟩
  · rw [like.dirty, Instance.dirty_touch tracks.managed, eraseDups_concat, tracks.dirty]
    rw [tracks.dirty] at known
    by_cases before : m ∈ history
    · rw [if_pos (known.mpr before), if_pos before]
    · rw [if_neg (mt known.mp before), if_neg before, List.map_append, List.map_singleton]
  · intro n member
    rcases List.mem_append.mp member with old | new
    · exact tracks.declared n old
    · exact List.mem_singleton.mp new ▸ declared
  · intro index member
    rcases List.mem_append.mp member with old | new
    · obtain ⟨target, same⟩ := tracks.one index old
      refine like.one index target ?_
      simpa only [Instance.stateAt, Instance.states_touch] using same
    · exact one index (List.mem_singleton.mp new).symm

theorem reassigned_of_ok {i : Instance} {field : String} {value c : Value} {index : Nat}
    (found : i.entity.fieldIndex field = .ok index)
    (coerced : (i.entity.fields.getD index default).type.coerce value = .ok c) :
    i.reassigned? field value = if i.valueAt index == c then none else some (.field index) := by
  simp only [Instance.reassigned?, Entity.fieldIndex_eq_ok.mp found, Option.bind_eq_bind, Option.bind_some, coerced,
    Except.toOption]

theorem Tracks.set (tracks : h.Tracks r e history) (distinct : e.selectedColumns.Nodup) (s : Ref) (field : String)
    (value : Value) : (h.edit (.set s field value)).Tracks r e
      (history ++ (h.changed? r (.set s field value)).toList) := by
  cases run : h.set s field value with
  | error error =>
    have refused : ¬(s = r ∧ (h.set s field value).isOk) := by
      rw [run]
      exact fun both => Bool.noConfusion both.2
    have unchanged : h.edit (.set s field value) = h := by rw [edit, run]; rfl
    rw [unchanged, changed?, if_neg refused, Option.toList_none, List.append_nil]
    exact tracks
  | ok k =>
    have edited : h.edit (.set s field value) = k := by rw [edit, run]; rfl
    rw [edited, changed?]
    obtain ⟨changed, set, same⟩ := Except.bind_eq_ok.mp run
    cases same
    by_cases own : s = r
    case neg =>
      have other : (h.modify s fun _ => changed).get r = h.get r := Heap.get_modify_of_ne (Ne.symm own) _
      rw [if_neg (fun both => own both.1), Option.toList_none, List.append_nil]
      refine tracks.resembles ?_
      rw [other]
      exact .refl _
    case pos =>
      subst own
      have after : (h.modify s fun _ => changed).get s = changed :=
        Heap.get_modify_self (holds_of_managed tracks.managed) _
      obtain ⟨index, c, found, coerced, ⟨equal, rfl⟩ | ⟨other, rfl⟩⟩ := Instance.set_ok set
      · rw [if_pos ⟨rfl, by rw [run]; rfl⟩, reassigned_of_ok found coerced, if_pos equal, Option.toList_none,
          List.append_nil]
        refine tracks.resembles ?_
        rw [after]
        exact .refl _
      · rw [if_pos ⟨rfl, by rw [run]; rfl⟩, reassigned_of_ok found coerced, if_neg (by simp [other]),
          Option.toList_some]
        have declared : (StoredMember.field index).DeclaredBy e := by
          rw [← tracks.entity]
          exact (List.getElem?_eq_some_iff.mp (Instance.field_of_fieldIndex found)).1
        have column : (StoredMember.field index).column e = ((h.get s).entity.fields.getD index default).column := by
          rw [tracks.entity]
          rfl
        refine tracks.touched distinct declared ?_ fun _ none => nomatch none
        rw [after, column]
        exact (h.get s).resembles_values _ _

theorem Tracks.setReference (tracks : h.Tracks r e history) (distinct : e.selectedColumns.Nodup) (s : Ref)
    (association : String) (target : Option Ref) : (h.edit (.setReference s association target)).Tracks r e
      (history ++ (h.changed? r (.setReference s association target)).toList) := by
  cases run : h.setReference s association target with
  | error error =>
    have refused : ¬(s = r ∧ (h.setReference s association target).isOk) := by
      rw [run]
      exact fun both => Bool.noConfusion both.2
    have unchanged : h.edit (.setReference s association target) = h := by rw [edit, run]; rfl
    rw [unchanged, changed?, if_neg refused, Option.toList_none, List.append_nil]
    exact tracks
  | ok k =>
    have edited : h.edit (.setReference s association target) = k := by rw [edit, run]; rfl
    rw [edited, changed?]
    obtain ⟨index, owning, old, found, declared, owns, rfl⟩ := setReference_ok run
    have like := followed_related Instance.Resembles.refl (fun _ _ _ => Instance.Resembles.trans)
      Instance.resembles_link Instance.resembles_unlink (h.pointed s index owning target) s owning old target r
    by_cases own : s = r
    case neg =>
      have other : (h.pointed s index owning target).get r = h.get r := Heap.get_modify_of_ne (Ne.symm own) _
      rw [if_neg (fun both => own both.1), Option.toList_none, List.append_nil]
      rw [other] at like
      exact tracks.resembles like
    case pos =>
      subst own
      have after : (h.pointed s index owning target).get s =
          ((h.get s).touch owning.ownerColumn).withState index (.one target) :=
        Heap.get_modify_self (holds_of_managed tracks.managed) _
      rw [if_pos ⟨rfl, by rw [run]; rfl⟩, Entity.associationIndex_eq_ok.mp found, Option.map_some, Option.toList_some]
      rw [tracks.entity] at declared
      have column : (StoredMember.reference index).column e = owning.ownerColumn := by
        simp [StoredMember.column, declared]
      have pointed : ((h.get s).touch owning.ownerColumn).Resembles ((h.pointed s index owning target).get s) := by
        rw [after]
        exact Instance.resembles_withState fun _ _ => ⟨target, rfl⟩
      refine tracks.touched distinct ⟨owning, declared, owns⟩ ?_ fun n same => ?_
      · rw [column]
        exact pointed.trans like
      · cases same
        obtain ⟨t, set⟩ : ∃ t, ((h.pointed s index owning target).get s).stateAt index = .one t := by
          rw [after, Instance.stateAt_withState]
          split
          case isTrue => exact ⟨target, rfl⟩
          case isFalse outside =>
            -- Without a place for its state an association reads as loaded and empty.
            refine ⟨none, ?_⟩
            have behind : ((h.get s).touch owning.ownerColumn).states.length ≤ index := by simpa using outside
            simp [Instance.stateAt, List.getElem?_eq_none behind]
        exact like.one index t set

/-- One edit adds the member that it changes to the history. -/
theorem Tracks.edit (tracks : h.Tracks r e history) (distinct : e.selectedColumns.Nodup) (a : Edit) :
    (h.edit a).Tracks r e (history ++ (h.changed? r a).toList) := by
  cases a with
  | set s field value => exact tracks.set distinct s field value
  | setReference s association target => exact tracks.setReference distinct s association target
  | load s index state =>
    rw [changed?, Option.toList_none, List.append_nil]
    exact tracks.resembles
      (Heap.get_modify_related Instance.Resembles.refl h s (Instance.resembles_fill _ index state) r)

theorem Tracks.edits (tracks : h.Tracks r e history) (distinct : e.selectedColumns.Nodup) (more : List Edit) :
    (h.edits more).Tracks r e (history ++ h.changedBy r more) := by
  induction more generalizing h history with
  | nil => simpa only [Heap.edits, List.foldl_nil, changedBy, List.append_nil] using tracks
  | cons a rest ih =>
    rw [changedBy, ← List.append_assoc]
    exact ih (tracks.edit distinct a)

end Heap

/-- Nothing but columns of the entity counts as changed. -/
def Instance.DirtyInside (i : Instance) : Prop := ∀ column ∈ i.dirty, column ∈ i.entity.selectedColumns

namespace Instance

theorem DirtyInside.touch {i : Instance} (inside : i.DirtyInside) {column : String}
    (own : column ∈ i.entity.selectedColumns) : (i.touch column).DirtyInside := by
  unfold Instance.touch
  split
  · intro changed member
    rcases List.mem_append.mp member with old | new
    · exact inside changed old
    · exact List.mem_singleton.mp new ▸ own
  · exact inside

end Instance

namespace Work

end Work

namespace Session

end Session

namespace Program

/-- Players, each in a team or in none. -/
def playerEntity : Entity :=
  ⟨"player", "players", [⟨"id", "id", .integer⟩, ⟨"name", "user_name", .text⟩], ⟨0, Nat.two_pos⟩,
    [⟨"team", "player", "team", "teams", .one, "team_id", "id", none, .integer⟩]⟩

def teamEntity : Entity := ⟨"team", "teams", [⟨"id", "id", .integer⟩], ⟨0, Nat.one_pos⟩, []⟩

/-- A session that has saved a team and a player. -/
def signed : Program :=
  (start ⟨[.rows .empty, .rows ⟨["id"], [[.int 7]]⟩, .rows ⟨["id"], [[.int 9]]⟩], []⟩).run
    [.create teamEntity, .create playerEntity, .begin "main" ⟨.postgres, .defaults⟩ ⟨[teamEntity, playerEntity]⟩,
      .request "main" (.persist ⟨0⟩), .request "main" (.persist ⟨1⟩)]

end Program

end EntityMapper
