import EntityMapper.Proofs.Session.FetchedCollections
import EntityMapper.Proofs.Session.ResolvedListings

namespace EntityMapper

/-- Two associations are filled in either order. -/
theorem Instance.fill_comm (i : Instance) {m n : Nat} (apart : m ≠ n) (first second : AssociationState) :
    (i.fill m first).fill n second = (i.fill n second).fill m first := by
  have atM : (i.fill n second).stateAt m = i.stateAt m := stateAt_fill fun same => absurd same apart
  have atN : (i.fill m first).stateAt n = i.stateAt n := stateAt_fill fun same => absurd same.symm apart
  rw [fill.eq_1 (i.fill m first), fill.eq_1 (i.fill n second), atM, atN]
  unfold fill withState
  split
  · rfl
  · split
    · rfl
    · rw [List.set_comm _ _ apart]

namespace Heap

variable {h : Heap} {r : Ref} {index back : Nat}

/-- Instances that are there change before a new one is allocated as they do afterwards. -/
theorem allocate_modify (held : h.Holds r) (change : Instance → Instance) (i : Instance) :
    (h.modify r change).allocate i = ((h.allocate i).1, (h.allocate i).2.modify r change) := by
  have pushed : (h.instances.modify r.index change).push i = (h.instances.push i).modify r.index change := by
    refine Array.ext (by simp) fun n _ _ => ?_
    simp only [Array.getElem_modify, Array.getElem_push, Array.size_modify]
    by_cases old : n < h.instances.size
    · simp only [old, dite_true]
    · have apart : r.index ≠ n := fun same => old (same ▸ held)
      simp only [old, dite_false, if_neg apart]
  exact Prod.ext (congrArg Ref.mk (size_modify h r change)) (congrArg Heap.mk pushed)

theorem modify_comm (h : Heap) (r s : Ref) (first second : Instance → Instance)
    (commute : r = s → ∀ i, first (second i) = second (first i)) :
    (h.modify r first).modify s second = (h.modify s second).modify r first := by
  refine congrArg Heap.mk (Array.ext (by simp [modify]) fun n _ _ => ?_)
  simp only [modify, Array.getElem_modify]
  split
  case isTrue atS =>
    split
    case isTrue atR =>
      have same : r = s := by
        cases r
        cases s
        exact congrArg Ref.mk (atR.trans atS.symm)
      exact (commute same _).symm
    case isFalse => rfl
  case isFalse => rfl

theorem modify_same {change : Instance → Instance} (same : change (h.get r) = h.get r) : h.modify r change = h := by
  refine congrArg Heap.mk (Array.ext (by simp) fun n _ inside => ?_)
  rw [Array.getElem_modify]
  split
  case isTrue own =>
    subst own
    simpa [get, Array.getD_eq_getD_getElem?, Array.getElem?_eq_getElem inside] using same
  case isFalse => rfl

/-- The instances behind an association are attached to its owner one after the other: the first one that comes fills
the association, and each points back. -/
def attached (h : Heap) (r : Ref) (index back : Nat) (items : List Ref) : Heap :=
  items.foldl (fun h item => (h.modify r (·.fill index (.one (some item)))).modify item (·.fill back (.one (some r)))) h

theorem attached_append (h : Heap) (r : Ref) (index back : Nat) (items others : List Ref) :
    h.attached r index back (items ++ others) = (h.attached r index back items).attached r index back others :=
  List.foldl_append

theorem allocate_attached {items : List Ref} (held : h.Holds r) (there : ∀ item ∈ items, h.Holds item) (i : Instance) :
    (h.attached r index back items).allocate i =
      ((h.allocate i).1, (h.allocate i).2.attached r index back items) := by
  induction items generalizing h with
  | nil => rfl
  | cons item rest ih =>
    obtain ⟨first, others⟩ := List.forall_mem_cons.mp there
    have next := ih (h := (h.modify r (·.fill index (.one (some item)))).modify item (·.fill back (.one (some r))))
      (holds_modify.mpr (holds_modify.mpr held)) fun other member =>
        holds_modify.mpr (holds_modify.mpr (others other member))
    rw [allocate_modify (holds_modify.mpr first), allocate_modify held] at next
    exact next

theorem alike_modify_fill (h : Heap) (r : Ref) (n : Nat) (state : AssociationState) (s : Ref) :
    (h.get s).Alike ((h.modify r (·.fill n state)).get s) := by
  refine get_modify_related Instance.Alike.refl h r ?_ s
  exact (h.get r).alike_fill n state

theorem alike_attached (h : Heap) (r : Ref) (index back : Nat) (items : List Ref) (s : Ref) :
    (h.get s).Alike ((h.attached r index back items).get s) := by
  induction items generalizing h with
  | nil => exact .refl _
  | cons item rest ih =>
    have filled := alike_modify_fill h r index (.one (some item)) s
    exact (filled.trans (alike_modify_fill _ item back _ s)).trans (ih _)

variable {items : List Ref}

theorem pointedBack_modify (h : Heap) (apart : r ∈ items → index ≠ back) (state : AssociationState) :
    (h.modify r (·.fill index state)).pointedBack items back r =
      (h.pointedBack items back r).modify r (·.fill index state) := by
  induction items generalizing h with
  | nil => rfl
  | cons item rest ih =>
    have swap := h.modify_comm r item (·.fill index state) (·.fill back (.one (some r))) fun same i =>
      (i.fill_comm (apart (same ▸ List.mem_cons_self)) state (.one (some r))).symm
    rw [pointedBack, List.foldl_cons, swap]
    exact ih _ fun member => apart (List.mem_cons_of_mem item member)

/-- Where an instance that points back is the owner itself, its loaded association stays loaded. -/
theorem isLoaded_pointed {item : Ref} (apart : r = item → index ≠ back)
    (loaded : ((h.get r).stateAt index).isLoaded = true) :
    (((h.modify item (·.fill back (.one (some r)))).get r).stateAt index).isLoaded = true := by
  by_cases own : r = item
  · have other := apart own
    subst own
    rw [get_modify_fill, Instance.stateAt_fill fun at_ => absurd at_ other]
    exact loaded
  · rwa [get_modify_of_ne own]

/-- Nothing more than the first instance comes into an association. -/
theorem attached_of_loaded (apart : r ∈ items → index ≠ back) (loaded : ((h.get r).stateAt index).isLoaded = true) :
    h.attached r index back items = h.pointedBack items back r := by
  induction items generalizing h with
  | nil => rfl
  | cons item rest ih =>
    have same : h.modify r (·.fill index (.one (some item))) = h := modify_same (if_pos loaded)
    rw [attached, List.foldl_cons, same]
    exact ih (fun member => apart (List.mem_cons_of_mem item member))
      (isLoaded_pointed (fun own => apart (own ▸ List.mem_cons_self)) loaded)

/-- What is attached instance by instance is what pointing back and filling the association leave. -/
theorem attached_cons (h : Heap) {first : Ref} {rest : List Ref} (apart : r ∈ first :: rest → index ≠ back) :
    h.attached r index back (first :: rest) =
      (h.pointedBack (first :: rest) back r).modify r (·.fill index (.one (some first))) := by
  have filled : ((((h.modify r (·.fill index (.one (some first))))).get r).stateAt index).isLoaded = true := by
    rw [get_modify_fill]
    exact (h.get r).isLoaded_fill index rfl
  rw [← pointedBack_modify h apart]
  exact attached_of_loaded (fun member => apart (List.mem_cons_of_mem first member))
    (isLoaded_pointed (fun own => apart (own ▸ List.mem_cons_self)) filled)

end Heap

/-- The columns of an entity hold an instance: they have a key, and all of them can be read. -/
structure EntityColumns.Instantiates (q : EntityColumns) : Prop where
  width : q.columns.length = q.entity.columnCount
  keyed : ∃ key, q.key? = some key
  read : ∃ id i, q.entity.primaryKey.type.coerce (q.columns.getD q.entity.key .null) = .ok id ∧
    Hydration.instanceOf q.entity id q.columns = .ok i

namespace Hydration

variable {e : Entity} {columns : List Value} {h k : Hydration}

/-- Columns with a key are read as the instance that the key stands for, or as a new one that is staged. -/
theorem entity_run {id : Value} {key : EntityKey}
    (coerced : e.primaryKey.type.coerce (columns.getD e.key .null) = .ok id) (named : EntityKey.of e.name id = .ok key)
    (h : Hydration) : entity e columns h = match h.lookup key with
      | some known => .ok (some known) h
      | none => match instanceOf e id columns with
        | .ok i => .ok (some (h.heap.allocate i).1)
            { h with heap := (h.heap.allocate i).2, staged := h.staged ++ [(key, (h.heap.allocate i).1)] }
        | .error refused => .error refused h := by
  have present : id.isNull = false := by
    cases id with
    | null => cases named
    | bool | int | float | text => rfl
  unfold entity
  rw [coerced, check, pure_bind, present, if_neg Bool.false_ne_true, named, check, pure_bind, bind_run, get_run]
  unfold Hydration.lookup
  dsimp only
  cases (h.identity.get? key).or (h.staged.lookup key) with
  | some known => rfl
  | none =>
    cases instanceOf e id columns with
    | ok i => rfl
    | error refused => rfl

theorem entity_known {key : EntityKey} {r : Ref} (keyed : (⟨e, columns⟩ : EntityColumns).key? = some key)
    (found : h.lookup key = some r) : entity e columns h = .ok (some r) h := by
  obtain ⟨id, coerced, named⟩ := EntityColumns.key?_eq_some.mp keyed
  rw [entity_run coerced named, found]

/-- Columns without any value are no instance. -/
theorem entity_absent (e : Entity) (width : Nat) (h : Hydration) :
    entity e (List.replicate width .null) h = .ok none h := by
  have null : (List.replicate width Value.null).getD e.key .null = .null := by
    rw [List.getD_eq_getElem?_getD, List.getElem?_replicate]
    split <;> rfl
  have coerced : e.primaryKey.type.coerce .null = .ok .null := by cases e.primaryKey.type <;> rfl
  unfold entity
  rw [null, coerced]
  rfl

theorem entity_of_instantiates (holds : (⟨e, columns⟩ : EntityColumns).Instantiates) (h : Hydration) :
    ∃ item k, entity e columns h = .ok (some item) k := by
  obtain ⟨_, ⟨key, keyed⟩, id, i, coerced, made⟩ := holds
  obtain ⟨other, coerced', named⟩ := EntityColumns.key?_eq_some.mp keyed
  cases coerced.symm.trans coerced'
  rw [entity_run coerced named]
  cases h.lookup key with
  | some known => exact ⟨known, h, rfl⟩
  | none =>
    rw [made]
    exact ⟨_, _, rfl⟩

/-- What other instances are like does not matter to an instance that is read. -/
theorem entity_elsewhere {item : Ref} (run : entity e columns h = .ok (some item) k) (change : Heap → Heap)
    (apart : ∀ i, (change h.heap).allocate i = ((h.heap.allocate i).1, change (h.heap.allocate i).2)) :
    entity e columns { h with heap := change h.heap } = .ok (some item) { k with heap := change k.heap } := by
  cases reads_entity run with
  | known keyed found => exact entity_known keyed found
  | @fresh key id i keyed free coerced usable made =>
    obtain ⟨other, coerced', named⟩ := EntityColumns.key?_eq_some.mp keyed
    cases coerced.symm.trans coerced'
    have unknown : ({ h with heap := change h.heap } : Hydration).lookup key = none := free
    rw [entity_run coerced named, unknown]
    dsimp only
    rw [made]
    dsimp only
    rw [apart]

/-- A key stands for an instance of the entity that it names, as the registry describes it. -/
def Describes (registry : Registry) (h : Hydration) : Prop := ∀ key r, h.lookup key = some r →
  h.heap.Holds r ∧ registry.Describes (h.heap.get r).entity ∧ (h.heap.get r).entity.name = key.entity

variable {registry : Registry}

theorem describes_entity (known : h.Describes registry) (described : registry.Describes e) {found : Option Ref}
    (run : entity e columns h = .ok found k) : k.Describes registry := by
  cases reads_entity run with
  | absent => exact known
  | known => exact known
  | @fresh key id i keyed free coerced usable made =>
    intro other r led
    unfold lookup at led
    rw [List.lookup_append, ← Option.or_assoc] at led
    rcases Option.or_eq_some_iff.mp led with old | ⟨_, fresh⟩
    · obtain ⟨held, knows⟩ := known other r old
      rw [Heap.get_allocate held]
      exact ⟨Nat.lt_of_lt_of_le held (by simp), knows⟩
    · obtain ⟨_, _, split, _⟩ := List.lookup_eq_some_iff.mp fresh
      have member : (other, r) ∈ [(key, (h.heap.allocate i).1)] := by
        rw [split]
        exact List.mem_append_right _ List.mem_cons_self
      cases List.mem_singleton.mp member
      have entity : i.entity = e := (instanceOf_id made coerced usable).1
      rw [Heap.get_allocated, entity]
      exact ⟨by simp [Heap.Holds, Heap.allocate], described, (EntityColumns.entity_of_key? keyed).symm⟩

/-- What is read as an instance of an entity is one. -/
theorem entity_own (known : h.Describes registry) (described : registry.Describes e) {item : Ref}
    (run : entity e columns h = .ok (some item) k) : k.heap.Holds item ∧ (k.heap.get item).entity = e := by
  obtain ⟨key, keyed, led⟩ := resolves_some.mp (reads_entity run).resolves
  obtain ⟨held, declared, name⟩ := describes_entity known described run key item led
  exact ⟨held, declared.eq described (name.trans (EntityColumns.entity_of_key? keyed))⟩

/-- Instances of an entity are read from columns one after the other. -/
inductive ReadsEach (e : Entity) : Hydration → List (List Value) → List Ref → Hydration → Prop
  | nil {h : Hydration} : ReadsEach e h [] [] h
  | cons {h m k : Hydration} {row : List Value} {rows : List (List Value)} {item : Ref} {items : List Ref}
      (width : row.length = e.columnCount) (run : entity e row h = .ok (some item) m)
      (own : m.heap.Holds item ∧ (m.heap.get item).entity = e) (rest : ReadsEach e m rows items k) :
      ReadsEach e h (row :: rows) (item :: items) k

theorem readsEach (described : registry.Describes e) {rows : List (List Value)}
    (columns : ∀ row ∈ rows, (⟨e, row⟩ : EntityColumns).Instantiates) (known : h.Describes registry) :
    ∃ items k, ReadsEach e h rows items k := by
  induction rows generalizing h with
  | nil => exact ⟨[], h, .nil⟩
  | cons row rest ih =>
    obtain ⟨first, others⟩ := List.forall_mem_cons.mp columns
    obtain ⟨item, m, run⟩ := entity_of_instantiates first h
    obtain ⟨items, k, later⟩ := ih others (describes_entity known described run)
    exact ⟨item :: items, k, .cons first.width run (entity_own known described run) later⟩

theorem ReadsEach.length {rows : List (List Value)} {items : List Ref} (reads : ReadsEach e h rows items k) :
    items.length = rows.length := by
  induction reads with
  | nil => rfl
  | cons _ _ _ _ ih => rw [List.length_cons, List.length_cons, ih]

theorem ReadsEach.extends {rows : List (List Value)} {items : List Ref} (reads : ReadsEach e h rows items k) :
    h.Extends k := by
  induction reads with
  | nil => exact refl_of Extends _
  | cons _ run _ _ ih => exact trans_of Extends (extends_of_entity run) ih

/-- Instances that are there stay as they are while others are read. -/
theorem ReadsEach.get {rows : List (List Value)} {items : List Ref} (reads : ReadsEach e h rows items k) {r : Ref}
    (held : h.heap.Holds r) : k.heap.get r = h.heap.get r := by
  induction reads with
  | nil => rfl
  | cons _ run _ _ ih =>
    rw [ih ((extends_of_entity run).keeps.holds held)]
    cases reads_entity run with
    | known => rfl
    | fresh => exact Heap.get_allocate held _

theorem ReadsEach.own {rows : List (List Value)} {items : List Ref} (reads : ReadsEach e h rows items k) :
    ∀ item ∈ items, (k.heap.get item).entity = e := by
  induction reads with
  | nil => exact fun _ none => absurd none List.not_mem_nil
  | cons _ _ own rest ih =>
    refine List.forall_mem_cons.mpr ⟨?_, ih⟩
    rw [rest.get own.1]
    exact own.2

/-- A row of one selected entity, and of what is fetched for it. -/
theorem record_entity (o : Alias) (fs : List FetchJoin) (own more : List Value)
    (width : own.length = o.entity.columnCount)
    (others : more.length = (fs.map (·.target.entity.columnCount)).foldr (· + ·) 0) (h : Hydration) :
    record (.ofProjections [.entity o] fs) (own ++ more) h = (do
      let r ← entity o.entity own
      fetches (own ++ more) (Layout.bind own.length fs) [(o.name, r)]
      pure (Record.cell (.entity r))) h := by
  have visible : Layout.visibleWidth [.entity o] = own.length := width.symm
  have long : ¬(own ++ more).length < (Layout.ofProjections [.entity o] fs).width := by
    simp [Layout.ofProjections, visible, others]
  have selected : cells (own ++ more) (Layout.place 0 [.entity o]) [] h =
      (entity o.entity own >>= fun r => pure ([.entity r], [(o.name, r)])) h := by
    simp only [Layout.place, Projection.kind, cells, LayoutItem.width, ItemKind.width, ← width, List.drop_zero,
      List.take_left]
    rfl
  unfold record
  rw [if_neg long, bind_run, bind_run]
  rw [show (Layout.ofProjections [.entity o] fs).items = Layout.place 0 [.entity o] from rfl, selected, bind_run]
  cases entity o.entity own h with
  | error refused k => rfl
  | ok r k =>
    dsimp only [Layout.ofProjections]
    rw [visible]
    rfl

/-- Rows of one entity are read as its instances. -/
theorem recordsOf_entity {s : Alias} {rows : List (List Value)} {items : List Ref}
    (reads : ReadsEach s.entity h rows items k) :
    recordsOf (.ofProjections [.entity s] []) rows h = .ok (items.map fun item => .cell (.entity (some item))) k := by
  induction reads with
  | nil => rfl
  | @cons h m k row rows item items width run _ _ ih =>
    have made : record (.ofProjections [.entity s] []) row h = .ok (.cell (.entity (some item))) m := by
      have whole := record_entity s [] row [] width rfl h
      rw [List.append_nil, bind_run, run] at whole
      exact whole
    rw [recordsOf, bind_run, made]
    dsimp only
    rw [bind_run, ih]
    rfl

section Joined

variable {o t : Alias} {a : Association} {r : Ref} {own more : List Value}

/-- A row of an owner that is known, with what is fetched for one association of it. -/
theorem record_joined (width : own.length = o.entity.columnCount) (others : more.length = t.entity.columnCount)
    (known : entity o.entity own h = .ok (some r) h) :
    record (.ofProjections [.entity o] [⟨o.name, a, t⟩]) (own ++ more) h = (do
      let target ← entity t.entity more
      attach r a target
      pure (Record.cell (.entity (some r)))) h := by
  rw [record_entity o [⟨o.name, a, t⟩] own more width others, bind_run, known]
  simp only [Layout.bind, fetches, FetchBinding.width, ← others, List.drop_left, List.take_length, List.lookup_cons,
    beq_self_eq_true, bind_run]
  cases entity t.entity more h with
  | error refused k => rfl
  | ok target k =>
    dsimp only
    cases attach r a target k with
    | error refused l => rfl
    | ok done l => rfl

variable {index back : Nat} {mappedBy : String} (one : a.cardinality = .one)

include one

theorem attach_none (declared : (h.heap.get r).entity.associationIndex a.name = .ok index) :
    attach r a none h = .ok () { h with heap := h.heap.modify r (·.fill index (.one none)) } := by
  unfold attach
  rw [bind_run, get_run]
  dsimp only
  rw [declared, one]
  rfl

omit one in
theorem pointBack_some {item : Ref} (inverse : a.mappedBy = some mappedBy)
    (points : (h.heap.get item).entity.associationIndex mappedBy = .ok back) :
    pointBack r a (some item) h = .ok () { h with heap := h.heap.modify item (·.fill back (.one (some r))) } := by
  unfold pointBack
  rw [inverse]
  dsimp only
  rw [bind_run, get_run]
  dsimp only
  rw [points]
  rfl

theorem attach_some {item : Ref} (declared : (h.heap.get r).entity.associationIndex a.name = .ok index)
    (inverse : a.mappedBy = some mappedBy) (points : (h.heap.get item).entity.associationIndex mappedBy = .ok back) :
    attach r a (some item) h = .ok () { h with heap := h.heap.attached r index back [item] } := by
  have filled : modifyInstance r (·.fill index (.one (some item))) h =
      .ok () { h with heap := h.heap.modify r (·.fill index (.one (some item))) } := rfl
  have alike := h.heap.alike_modify_fill r index (.one (some item)) item
  rw [← alike.entity] at points
  unfold attach
  rw [bind_run, get_run]
  dsimp only
  rw [declared, one, check, pure_bind]
  dsimp only
  rw [bind_run, filled]
  exact pointBack_some inverse points

/-- A row of an owner to which other instances have been attached, and of one more. -/
theorem record_attached {m : Hydration} {key : EntityKey} {row : List Value} {item : Ref} {before : List Ref}
    (width : own.length = o.entity.columnCount) (keyed : (⟨o.entity, own⟩ : EntityColumns).key? = some key)
    (others : row.length = t.entity.columnCount) (run : entity t.entity row h = .ok (some item) m)
    (known : h.lookup key = some r) (declared : (h.heap.get r).entity.associationIndex a.name = .ok index)
    (inverse : a.mappedBy = some mappedBy) (points : (m.heap.get item).entity.associationIndex mappedBy = .ok back)
    (there : ∀ other ∈ before, h.heap.Holds other) :
    record (.ofProjections [.entity o] [⟨o.name, a, t⟩]) (own ++ row)
        { h with heap := h.heap.attached r index back before } =
      .ok (.cell (.entity (some r))) { m with heap := m.heap.attached r index back (before ++ [item]) } := by
  have held := Heap.holds_of_associationIndex declared
  have owner := entity_known (h := { h with heap := h.heap.attached r index back before }) keyed known
  have read := entity_elsewhere run (·.attached r index back before) fun i => Heap.allocate_attached held there i
  rw [← ((extends_of_entity run).grown r held).entity, ← (m.heap.alike_attached r index back before r).entity] at declared
  rw [← (m.heap.alike_attached r index back before item).entity] at points
  have attached := attach_some (h := { m with heap := m.heap.attached r index back before }) one declared inverse points
  rw [record_joined width others owner, bind_run, read]
  dsimp only
  rw [bind_run, attached, Heap.attached_append]
  rfl

/-- Rows of one owner, each with an instance for its association, leave what the instances alone leave, attached to the
owner one after the other. -/
theorem recordsOf_joined {key : EntityKey} {rows : List (List Value)} {items : List Ref} (before : List Ref)
    (width : own.length = o.entity.columnCount) (keyed : (⟨o.entity, own⟩ : EntityColumns).key? = some key)
    (reads : ReadsEach t.entity h rows items k) (known : h.lookup key = some r)
    (declared : (h.heap.get r).entity.associationIndex a.name = .ok index) (inverse : a.mappedBy = some mappedBy)
    (points : t.entity.associationIndex mappedBy = .ok back) (there : ∀ item ∈ before, h.heap.Holds item) :
    recordsOf (.ofProjections [.entity o] [⟨o.name, a, t⟩]) (rows.map (own ++ ·))
        { h with heap := h.heap.attached r index back before } =
      .ok (items.map fun _ => .cell (.entity (some r)))
        { k with heap := k.heap.attached r index back (before ++ items) } := by
  -- By the rows. Each is read after the instances of those before it have been attached, which are told apart from what
  -- was read itself.
  induction reads generalizing before with
  | nil =>
    rw [List.append_nil]
    rfl
  | @cons h m k row rows item items others run itself rest ih =>
    have extended := extends_of_entity run
    have declares : (m.heap.get r).entity.associationIndex a.name = .ok index := by
      rw [(extended.grown r (Heap.holds_of_associationIndex declared)).entity]
      exact declared
    have leads : (m.heap.get item).entity.associationIndex mappedBy = .ok back := by
      rw [itself.2]
      exact points
    have made := record_attached one width keyed others run known declared inverse leads there
    have later := ih (before ++ [item]) (extended.lookup known) declares fun other member => by
      rcases List.mem_append.mp member with old | new
      · exact extended.keeps.holds (there other old)
      · rw [List.mem_singleton.mp new]
        exact Heap.holds_of_associationIndex leads
    rw [List.append_assoc, List.singleton_append] at later
    rw [List.map_cons, recordsOf, bind_run, made]
    dsimp only
    rw [bind_run, later]
    rfl

/-- The row of an owner for which there is nothing behind its association. -/
theorem recordsOf_alone {key : EntityKey} (width : own.length = o.entity.columnCount)
    (keyed : (⟨o.entity, own⟩ : EntityColumns).key? = some key) (known : h.lookup key = some r)
    (declared : (h.heap.get r).entity.associationIndex a.name = .ok index) :
    recordsOf (.ofProjections [.entity o] [⟨o.name, a, t⟩]) [own ++ List.replicate t.entity.columnCount .null] h =
      .ok [.cell (.entity (some r))] { h with heap := h.heap.modify r (·.fill index (.one none)) } := by
  have many : (List.replicate t.entity.columnCount Value.null).length = t.entity.columnCount := List.length_replicate
  have made := record_joined (a := a) width many (entity_known keyed known)
  rw [bind_run, entity_absent] at made
  dsimp only at made
  rw [bind_run, attach_none one declared] at made
  rw [recordsOf, bind_run, made]
  rfl

end Joined

end Hydration

end EntityMapper
