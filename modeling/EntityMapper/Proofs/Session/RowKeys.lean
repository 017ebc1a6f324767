import EntityMapper.Proofs.Compile.Layouts
import EntityMapper.Proofs.Session.Rows

namespace EntityMapper

namespace Heap

variable {h : Heap} {i : Instance} {r : Ref}

theorem holds_allocate_of_ne (other : r ≠ (h.allocate i).1) : (h.allocate i).2.Holds r ↔ h.Holds r := by
  have different : r.index ≠ h.instances.size := fun same => other (by cases r; exact congrArg Ref.mk same)
  simp only [Holds, size_allocate]
  omega

theorem get_allocate_of_ne (other : r ≠ (h.allocate i).1) : (h.allocate i).2.get r = h.get r := by
  by_cases held : h.Holds r
  · exact get_allocate held i
  · rw [get_of_not_holds (mt (holds_allocate_of_ne other).mp held), get_of_not_holds held]

end Heap

/-- The columns of an entity in a row. -/
structure EntityColumns where
  entity : Entity
  columns : List Value

/-- The key of the instance that the columns describe, if they have one. -/
def EntityColumns.key? (q : EntityColumns) : Option EntityKey :=
  (q.entity.primaryKey.type.coerce (q.columns.getD q.entity.key .null) >>= EntityKey.of q.entity.name).toOption

theorem EntityColumns.key?_eq_some {q : EntityColumns} {key : EntityKey} : q.key? = some key ↔ ∃ id,
    q.entity.primaryKey.type.coerce (q.columns.getD q.entity.key .null) = .ok id ∧
      EntityKey.of q.entity.name id = .ok key := by
  unfold key?
  cases run : q.entity.primaryKey.type.coerce (q.columns.getD q.entity.key .null) >>= EntityKey.of q.entity.name with
  | error e =>
    refine iff_of_false (fun none => by cases none) fun both => ?_
    cases run.symm.trans (Except.bind_eq_ok.mpr both)
  | ok found =>
    rw [← Except.bind_eq_ok, run]
    exact ⟨fun same => congrArg _ (Option.some.inj same), fun same => congrArg _ (Except.ok.inj same)⟩

theorem EntityKey.entity_of {entity : String} {id : Value} {key : EntityKey} (run : EntityKey.of entity id = .ok key) :
    key.entity = entity := by
  obtain ⟨_, _, run⟩ := Except.bind_eq_ok.mp run
  cases run
  rfl

theorem EntityColumns.entity_of_key? {q : EntityColumns} {key : EntityKey} (keyed : q.key? = some key) :
    key.entity = q.entity.name := by
  obtain ⟨id, _, run⟩ := key?_eq_some.mp keyed
  exact EntityKey.entity_of run

/-- Where the rows of a layout have an entity: the alias, and the first column. -/
structure Place where
  name : String
  entity : Entity
  offset : Nat

def Place.reading (p : Place) (row : List Value) : EntityColumns :=
  ⟨p.entity, within row (p.offset, p.entity.columnCount)⟩

def Place.key? (p : Place) (row : List Value) : Option EntityKey := (p.reading row).key?

def LayoutItem.place? (item : LayoutItem) : Option Place :=
  item.projection.source?.map fun a => ⟨a.name, a.entity, item.offset⟩

def FetchBinding.place (b : FetchBinding) : Place := ⟨b.target.name, b.target.entity, b.offset⟩

/-- The key of an owner and, unless there is none, that of the instance which a row has for its association. -/
structure Attachment where
  owner : EntityKey
  association : Association
  target : Option EntityKey

namespace Layout

/-- The selected entities of a layout. -/
def selected (l : Layout) : List Place := l.items.filterMap (·.place?)

/-- All entities of a layout in the order in which they are read. -/
def places (l : Layout) : List Place := l.selected ++ l.fetches.map (·.place)

def readings (l : Layout) (row : List Value) : List EntityColumns := l.places.map (·.reading row)

/-- The keys that occur in a row. -/
def keys (l : Layout) (row : List Value) : List EntityKey := (l.readings row).filterMap (·.key?)

/-- What the bindings of a row relate. The owner of a binding is the entity read last under its alias. -/
def attachmentsFrom (row : List Value) : List Place → List FetchBinding → List Attachment
  | _, [] => []
  | places, b :: rest =>
    (((places.find? (·.name == b.owner)).bind (·.key? row)).map fun owner =>
      (⟨owner, b.association, b.place.key? row⟩ : Attachment)).toList ++ attachmentsFrom row (b.place :: places) rest

def attachments (l : Layout) (row : List Value) : List Attachment := attachmentsFrom row l.selected.reverse l.fetches

variable {row : List Value} {made : Attachment}

theorem mem_attachmentsFrom {places : List Place} {bindings : List FetchBinding}
    (member : made ∈ attachmentsFrom row places bindings) : ∃ before b after, bindings = before ++ b :: after ∧
      made.association = b.association ∧ made.target = b.place.key? row ∧
      ∃ p, (p ∈ places ∨ p ∈ before.map (·.place)) ∧ p.name = b.owner ∧ p.key? row = some made.owner := by
  induction bindings generalizing places with
  | nil => exact absurd member List.not_mem_nil
  | cons b rest ih =>
    unfold attachmentsFrom at member
    rcases List.mem_append.mp member with own | later
    · obtain ⟨owner, keyed, rfl⟩ := Option.map_eq_some_iff.mp (Option.mem_toList.mp own)
      obtain ⟨p, found, keyed⟩ := Option.bind_eq_some_iff.mp keyed
      refine ⟨[], b, rest, rfl, rfl, rfl, p, .inl (List.mem_of_find?_eq_some found), ?_, keyed⟩
      simpa using List.find?_some found
    · obtain ⟨before, c, after, rfl, association, target, p, known, named, keyed⟩ := ih later
      refine ⟨b :: before, c, after, rfl, association, target, p, ?_, named, keyed⟩
      rcases known with old | inside
      · rcases List.mem_cons.mp old with rfl | old
        · exact .inr List.mem_cons_self
        · exact .inl old
      · exact .inr (List.mem_cons_of_mem _ inside)

/-- An attachment comes from a binding and from an entity of its owner's alias. -/
theorem mem_attachments {l : Layout} (member : made ∈ l.attachments row) : ∃ b ∈ l.fetches,
    made.association = b.association ∧ made.target = b.place.key? row ∧
      ∃ p ∈ l.places, p.name = b.owner ∧ p.key? row = some made.owner := by
  obtain ⟨before, b, after, split, association, target, p, known, named, keyed⟩ := mem_attachmentsFrom member
  refine ⟨b, split ▸ List.mem_append_right _ List.mem_cons_self, association, target, p, ?_, named, keyed⟩
  rcases known with selected | fetched
  · exact List.mem_append_left _ (List.mem_reverse.mp selected)
  · refine List.mem_append_right _ ?_
    rw [split, List.map_append]
    exact List.mem_append_left _ fetched

end Layout

namespace Hydration

/-- There is a state for each association, which is what is read for it. -/
theorem getD_statesOf {e : Entity} {id : Value} {columns : List Value} {associations : List Association}
    {states : List AssociationState} (read : statesOf e id columns associations = .ok states) (n : Nat) :
    (∃ a, associations[n]? = some a ∧ stateOf e id columns a = .ok (states.getD n (.one none))) ∨
      associations[n]? = none ∧ states.getD n (.one none) = .one none := by
  induction associations generalizing states n with
  | nil =>
    cases read
    exact .inr ⟨rfl, rfl⟩
  | cons a rest ih =>
    obtain ⟨state, own, read⟩ := Except.bind_eq_ok.mp read
    obtain ⟨others, later, read⟩ := Except.bind_eq_ok.mp read
    cases read
    cases n with
    | zero => exact .inl ⟨a, rfl, own⟩
    | succ n => exact ih later n

/-- A new instance has at each place what is read for the association there. -/
theorem stateAt_instanceOf {e : Entity} {id : Value} {columns : List Value} {i : Instance}
    (made : instanceOf e id columns = .ok i) (n : Nat) :
    (∃ a, e.associations[n]? = some a ∧ stateOf e id columns a = .ok (i.stateAt n)) ∨
      e.associations[n]? = none ∧ i.stateAt n = .one none := by
  obtain ⟨values, _, made⟩ := Except.bind_eq_ok.mp made
  obtain ⟨states, read, made⟩ := Except.bind_eq_ok.mp made
  cases made
  exact getD_statesOf read n

/-- All that the columns of an entity can be read as: no instance, a known one, or a new one that is staged. -/
inductive Reads (q : EntityColumns) (h : Hydration) : Option Ref → Hydration → Prop
  | absent (keyless : q.key? = none) : Reads q h none h
  | known {key : EntityKey} {r : Ref} (keyed : q.key? = some key) (found : h.lookup key = some r) : Reads q h (some r) h
  | fresh {key : EntityKey} {id : Value} {i : Instance} (keyed : q.key? = some key) (free : h.lookup key = none)
      (coerced : q.entity.primaryKey.type.coerce (q.columns.getD q.entity.key .null) = .ok id)
      (usable : id.isNull = false) (made : instanceOf q.entity id q.columns = .ok i) :
      Reads q h (some (h.heap.allocate i).1)
        { h with heap := (h.heap.allocate i).2, staged := h.staged ++ [(key, (h.heap.allocate i).1)] }

theorem reads_entity {e : Entity} {columns : List Value} {h k : Hydration} {found : Option Ref}
    (run : entity e columns h = .ok found k) : Reads ⟨e, columns⟩ h found k := by
  unfold entity at run
  cases coerced : e.primaryKey.type.coerce (columns.getD e.key .null) with
  | error error =>
    rw [coerced] at run
    cases run
  | ok id =>
    rw [coerced, check, pure_bind] at run
    cases usable : id.isNull with
    | true =>
      rw [usable, if_pos rfl] at run
      cases run
      refine .absent (Option.eq_none_iff_forall_ne_some.mpr fun key keyed => ?_)
      obtain ⟨id', coerced', made⟩ := EntityColumns.key?_eq_some.mp keyed
      cases coerced.symm.trans coerced'
      cases id with
      | null => cases made
      | bool | int | float | text => cases usable
    | false =>
      rw [usable, if_neg Bool.false_ne_true] at run
      obtain ⟨key, middle, usableKey, run⟩ := bind_ok run
      cases named : EntityKey.of e.name id with
      | error error =>
        rw [named] at usableKey
        cases usableKey
      | ok given =>
        rw [named] at usableKey
        cases usableKey
        have keyed : (⟨e, columns⟩ : EntityColumns).key? = some key :=
          EntityColumns.key?_eq_some.mpr ⟨id, coerced, named⟩
        rw [bind_run, get_run] at run
        dsimp only at run
        cases known : h.lookup key with
        | some r =>
          rw [show (h.identity.get? key).or (h.staged.lookup key) = some r from known] at run
          cases run
          exact .known keyed known
        | none =>
          rw [show (h.identity.get? key).or (h.staged.lookup key) = none from known] at run
          obtain ⟨i, between, read, run⟩ := bind_ok run
          cases made : instanceOf e id columns with
          | error error =>
            rw [made] at read
            cases read
          | ok j =>
            rw [made] at read
            cases read
            cases run
            exact .fresh keyed known coerced usable made

theorem check_ok {α : Type} {x : Except Error α} {a : α} {h k : Hydration} (run : check x h = .ok a k) :
    x = .ok a ∧ k = h := by
  cases x with
  | error e => cases run
  | ok b =>
    cases run
    exact ⟨rfl, rfl⟩

/-- The instance, or none, is what the key, or none, stands for. -/
def Resolves (known : EntityKey → Option Ref) (key : Option EntityKey) (r : Option Ref) : Prop :=
  key.map known = r.map some

theorem resolves_some {known : EntityKey → Option Ref} {key : Option EntityKey} {r : Ref} :
    Resolves known key (some r) ↔ ∃ given, key = some given ∧ known given = some r := Option.map_eq_some_iff

theorem Extends.lookup {h k : Hydration} (extended : h.Extends k) {key : EntityKey} {r : Ref}
    (found : h.lookup key = some r) : k.lookup key = some r := by
  obtain ⟨more, staged, _⟩ := extended.staged
  rw [Hydration.lookup, extended.identity, staged]
  exact lookup_append found more

theorem Resolves.extends {h k : Hydration} (extended : h.Extends k) {key : Option EntityKey} {r : Option Ref}
    (resolves : Resolves h.lookup key r) : Resolves k.lookup key r := by
  cases r with
  | none => exact Option.map_eq_none_iff.mpr (Option.map_eq_none_iff.mp resolves)
  | some r =>
    obtain ⟨given, rfl, found⟩ := resolves_some.mp resolves
    exact congrArg some (extended.lookup found)

theorem Resolves.eq {known : EntityKey → Option Ref} {key : Option EntityKey} {r : Option Ref}
    (resolves : Resolves known key r) : key.bind known = r := by
  cases r with
  | none => rw [Option.map_eq_none_iff.mp resolves, Option.bind_none]
  | some r =>
    obtain ⟨given, rfl, found⟩ := resolves_some.mp resolves
    exact found

theorem Reads.resolves {q : EntityColumns} {h k : Hydration} {found : Option Ref} (reads : Reads q h found k) :
    Resolves k.lookup q.key? found := by
  cases reads with
  | absent keyless => rw [keyless, Resolves]; rfl
  | known keyed found => rw [keyed]; exact congrArg some found
  | fresh keyed free =>
    rw [keyed]
    obtain ⟨unregistered, unstaged⟩ := Option.or_eq_none_iff.mp free
    simp [Resolves, lookup, unregistered, List.lookup_append, unstaged]

/-- One state is reached from another by reading entities and by attaching instances to their owners. -/
inductive Runs : Hydration → List EntityColumns → List Attachment → Hydration → Prop
  | still {h : Hydration} : Runs h [] [] h
  | read {q : EntityColumns} {h k l : Hydration} {found : Option Ref} {readings : List EntityColumns}
      {attachments : List Attachment} (run : entity q.entity q.columns h = .ok found k)
      (next : Runs k readings attachments l) : Runs h (q :: readings) attachments l
  | attach {made : Attachment} {owner : Ref} {target : Option Ref} {h k l : Hydration} {readings : List EntityColumns}
      {attachments : List Attachment} (owned : h.lookup made.owner = some owner)
      (resolves : Resolves h.lookup made.target target) (run : Hydration.attach owner made.association target h = .ok () k)
      (next : Runs k readings attachments l) : Runs h readings (made :: attachments) l

variable {h k l : Hydration} {readings more : List EntityColumns} {attachments others : List Attachment}

theorem Runs.append (first : Runs h readings attachments k) (second : Runs k more others l) :
    Runs h (readings ++ more) (attachments ++ others) l := by
  induction first with
  | still => exact second
  | read run _ ih => exact .read run (ih second)
  | attach owned resolves run _ ih => exact .attach owned resolves run (ih second)

theorem extends_of_entity {e : Entity} {columns : List Value} {found : Option Ref}
    (run : entity e columns h = .ok found k) : h.Extends k := by
  have extended := respects_entity e columns h
  rwa [leaves_of_ok run] at extended

theorem extends_of_attach {owner : Ref} {a : Association} {target : Option Ref}
    (run : attach owner a target h = .ok () k) : h.Extends k := by
  have extended := respects_attach owner a target h
  rwa [leaves_of_ok run] at extended

theorem Runs.extends (runs : Runs h readings attachments k) : h.Extends k := by
  induction runs with
  | still => exact refl_of Extends _
  | read run _ ih => exact trans_of Extends (extends_of_entity run) ih
  | attach _ _ run _ ih => exact trans_of Extends (extends_of_attach run) ih

/-- The instances of a row by alias are those of its entities. -/
def Tracks (h : Hydration) (row : List Value) : List Place → Found → Prop :=
  List.Forall₂ fun p entry => entry.1 = p.name ∧ Resolves h.lookup (p.key? row) entry.2

theorem Tracks.extends {row : List Value} {places : List Place} {found : Found} (tracks : h.Tracks row places found)
    (extended : h.Extends k) : k.Tracks row places found :=
  List.Forall₂.imp (fun _ _ holds => ⟨holds.1, holds.2.extends extended⟩) tracks

/-- An alias leads to the instance of the entity that was read last under it. -/
theorem Tracks.lookup {row : List Value} {places : List Place} {found : Found} (tracks : h.Tracks row places found)
    (name : String) : (places.find? (·.name == name) = none ∧ found.lookup name = none) ∨
      ∃ p r, places.find? (·.name == name) = some p ∧ found.lookup name = some r ∧ Resolves h.lookup (p.key? row) r := by
  induction tracks with
  | nil => exact .inl ⟨rfl, rfl⟩
  | @cons p entry places found own _ ih =>
    obtain ⟨called, r⟩ := entry
    obtain ⟨rfl, resolves⟩ := own
    rw [List.find?_cons, List.lookup_cons, BEq.comm (a := name)]
    cases same : p.name == name with
    | true => exact .inr ⟨p, r, rfl, rfl, resolves⟩
    | false => exact ih

/-- A cell shows what the columns of its item stand for. -/
def Shows (known : EntityKey → Option Ref) (row : List Value) (item : LayoutItem) (c : Cell) : Prop :=
  match item.kind with
  | .scalar type => ∃ v, type.elim (.ok (row.getD item.offset .null)) (·.coerce (row.getD item.offset .null)) = .ok v ∧
      c = .value v
  | .entity e => ∃ r, c = .entity r ∧ Resolves known (⟨e, within row item.range⟩ : EntityColumns).key? r

theorem Shows.extends {row : List Value} {item : LayoutItem} {c : Cell} (shows : Shows h.lookup row item c)
    (extended : h.Extends k) : Shows k.lookup row item c := by
  unfold Shows at shows ⊢
  split at shows
  · exact shows
  · obtain ⟨r, same, resolves⟩ := shows
    exact ⟨r, same, resolves.extends extended⟩

section Rows

variable {row : List Value} {places : List Place} {found after : Found}

/-- Items are read from left to right. The cells show what the keys stand for from then on. -/
theorem runs_cells {items : List LayoutItem} (kinds : ∀ item ∈ items, item.kind = item.projection.kind)
    {cs : List Cell} (tracks : h.Tracks row places found) (run : cells row items found h = .ok (cs, after) k) :
    Runs h ((items.filterMap (·.place?)).map (·.reading row)) [] k ∧
      k.Tracks row ((items.filterMap (·.place?)).reverse ++ places) after ∧
      List.Forall₂ (Shows k.lookup row) items cs := by
  induction items generalizing h found places cs after with
  | nil =>
    cases run
    exact ⟨.still, tracks, .nil⟩
  | cons item rest ih =>
    obtain ⟨own, others⟩ := List.forall_mem_cons.mp kinds
    unfold cells at run
    cases projection : item.projection with
    | expr e =>
      have kind : item.kind = .scalar e.dataType? := by rw [own, projection]; rfl
      have none : (item :: rest).filterMap (·.place?) = rest.filterMap (·.place?) :=
        List.filterMap_cons_none (by rw [LayoutItem.place?, projection]; rfl)
      rw [kind] at run
      obtain ⟨v, middle, checked, run⟩ := bind_ok run
      obtain ⟨⟨cells, names⟩, last, later, run⟩ := bind_ok run
      cases run
      obtain ⟨coerced, rfl⟩ := check_ok checked
      obtain ⟨runs, tracked, shown⟩ := ih others tracks later
      rw [none]
      refine ⟨runs, tracked, .cons ?_ shown⟩
      rw [Shows, kind]
      exact ⟨v, coerced, rfl⟩
    | entity a =>
      have kind : item.kind = .entity a.entity := by rw [own, projection]; rfl
      have some : (item :: rest).filterMap (·.place?) = ⟨a.name, a.entity, item.offset⟩ :: rest.filterMap (·.place?) :=
        List.filterMap_cons_some (by rw [LayoutItem.place?, projection]; rfl)
      rw [kind] at run
      obtain ⟨r, middle, read, run⟩ := bind_ok run
      obtain ⟨⟨cells, names⟩, last, later, run⟩ := bind_ok run
      cases run
      rw [LayoutItem.width, kind] at read
      have resolves := (reads_entity read).resolves
      rw [projection] at later
      have further : middle.Tracks row (⟨a.name, a.entity, item.offset⟩ :: places) ((a.name, r) :: found) :=
        .cons ⟨rfl, resolves⟩ (tracks.extends (extends_of_entity read))
      obtain ⟨runs, tracked, shown⟩ := ih others further later
      rw [some, List.map_cons, List.reverse_cons, List.append_assoc, List.singleton_append]
      refine ⟨.read read runs, tracked, .cons ?_ shown⟩
      rw [Shows, kind]
      refine ⟨r, rfl, ?_⟩
      rw [LayoutItem.range, LayoutItem.width, kind]
      exact resolves.extends runs.extends

/-- Behind each binding that is read its instance is attached, where its owner has one. -/
theorem runs_fetches {bindings : List FetchBinding} (tracks : h.Tracks row places found)
    (run : fetches row bindings found h = .ok () k) :
    Runs h (bindings.map (·.place.reading row)) (Layout.attachmentsFrom row places bindings) k := by
  induction bindings generalizing h found places with
  | nil =>
    cases run
    exact .still
  | cons b rest ih =>
    unfold fetches at run
    obtain ⟨target, middle, read, run⟩ := bind_ok run
    have resolves := (reads_entity read).resolves
    have tracked := tracks.extends (extends_of_entity read)
    have further : middle.Tracks row (b.place :: places) ((b.target.name, target) :: found) :=
      .cons ⟨rfl, resolves⟩ tracked
    rw [List.map_cons]
    refine .read read ?_
    unfold Layout.attachmentsFrom
    rcases tracked.lookup b.owner with ⟨unknown, missing⟩ | ⟨p, owner, known, listed, keyed⟩
    · rw [missing] at run
      rw [unknown]
      exact ih further run
    · rw [listed] at run
      rw [known, Option.bind_some]
      cases owner with
      | none =>
        rw [Option.map_eq_none_iff.mp keyed]
        exact ih further run
      | some owner =>
        obtain ⟨u, attached, run, later⟩ := bind_ok run
        obtain ⟨key, named, owned⟩ := Option.map_eq_some_iff.mp keyed
        rw [named]
        exact .attach owned resolves run (ih (further.extends (extends_of_attach run)) later)

end Rows

/-- The cells of a record show what the columns of their items stand for. -/
def ShowsAll (known : EntityKey → Option Ref) (layout : Layout) (row : List Value) (r : Record) : Prop :=
  List.Forall₂ (Shows known row) layout.items r.distinctKey

variable {layout : Layout} {row : List Value} {rows : List (List Value)}

/-- A record has all cells of its row, whatever its shape. -/
theorem distinctKey_shaped {R : LayoutItem → Cell → Prop} {cs : List Cell} (whole : List.Forall₂ R layout.items cs) :
    (match layout.shape with
      | .tuple => Record.tuple ⟨layout.items.map (LayoutItem.projection ·), cs⟩
      | .scalar | .entity => .cell (cs.getLast?.getD (.value .null))).distinctKey = cs := by
  have single (other : layout.shape ≠ .tuple) : (Record.cell (cs.getLast?.getD (.value .null))).distinctKey = cs := by
    unfold Layout.shape at other
    split at other
    case h_1 item items =>
      rw [items] at whole
      obtain ⟨c, rest, _, none, rfl⟩ := List.forall₂_cons_left_iff.mp whole
      cases List.forall₂_nil_left_iff.mp none
      rfl
    case h_2 => exact absurd rfl other
  cases shape : layout.shape with
  | tuple => rfl
  | scalar | entity => exact single (by rw [shape]; nofun)

theorem runs_record (kinds : ∀ item ∈ layout.items, item.kind = item.projection.kind) {r : Record}
    (run : record layout row h = .ok r k) :
    Runs h (layout.readings row) (layout.attachments row) k ∧ ShowsAll k.lookup layout row r := by
  unfold record at run
  split at run
  · cases run
  · obtain ⟨⟨cs, found⟩, middle, read, run⟩ := bind_ok run
    obtain ⟨u, last, fetched, run⟩ := bind_ok run
    have nothing : h.Tracks row [] [] := .nil
    obtain ⟨first, tracks, shown⟩ := runs_cells kinds nothing read
    have all : r.distinctKey = cs := by
      cases run
      exact distinctKey_shaped shown
    cases run
    rw [List.append_nil] at tracks
    have second := runs_fetches tracks fetched
    refine ⟨?_, ?_⟩
    · rw [Layout.readings, Layout.places, List.map_append, List.map_map]
      exact first.append second
    · rw [ShowsAll, all]
      exact List.Forall₂.imp (fun _ _ shows => Shows.extends shows second.extends) shown

/-- Rows that can be read are read entity by entity and attachment by attachment, and each record shows what the keys of
its row stand for in the end. -/
theorem runs_recordsOf (kinds : ∀ item ∈ layout.items, item.kind = item.projection.kind) {records : List Record}
    (run : recordsOf layout rows h = .ok records k) :
    Runs h (rows.flatMap layout.readings) (rows.flatMap layout.attachments) k ∧
      List.Forall₂ (ShowsAll k.lookup layout) rows records := by
  induction rows generalizing h records with
  | nil =>
    cases run
    exact ⟨.still, .nil⟩
  | cons row rest ih =>
    obtain ⟨r, middle, made, run⟩ := bind_ok run
    obtain ⟨others, last, later, run⟩ := bind_ok run
    cases run
    obtain ⟨first, shown⟩ := runs_record kinds made
    obtain ⟨second, behind⟩ := ih later
    rw [List.flatMap_cons, List.flatMap_cons]
    refine ⟨first.append second, .cons ?_ behind⟩
    exact List.Forall₂.imp (fun _ _ shows => Shows.extends shows second.extends) shown

/-- When all rows are materialized, the identity map has what was staged for the keys that it did not have. -/
theorem records_ok {heap : Heap} {identity : IdentityMap} {found : List Record}
    (run : records layout rows ⟨heap, identity, [], []⟩ = .ok found k) :
    ∃ last, recordsOf layout rows ⟨heap, identity, [], []⟩ = .ok found last ∧ k.heap = last.heap ∧
      k.identity.entries = identity.entries ++ last.staged ∧ k.identity.get? = last.lookup := by
  cases materialized : recordsOf layout rows ⟨heap, identity, [], []⟩ with
  | error e last =>
    unfold records at run
    rw [bind_run, materialized] at run
    cases run
  | ok shown last =>
    have extended := respects_recordsOf layout rows ⟨heap, identity, [], []⟩
    rw [leaves_of_ok materialized] at extended
    rw [records_run (staged_nil heap identity []) materialized] at run
    cases run
    refine ⟨last, rfl, rfl, congrArg (·.entries ++ _) extended.identity, ?_⟩
    funext key
    exact List.lookup_append

end Hydration

end EntityMapper
