import EntityMapper.Proofs.Session.FirstResult
import EntityMapper.Proofs.Session.RowKeys

namespace EntityMapper

/-- The second instance is what rows leave of the first: its values, whether it is managed, and what it is to write are
as they were, as is everything that was loaded. What was deferred is so with the same key, or is loaded. -/
structure Instance.Unwritten (i j : Instance) : Prop extends i.Alike j where
  dirty : j.dirty = i.dirty
  loaded : ∀ n, (i.stateAt n).isLoaded = true → j.stateAt n = i.stateAt n
  deferred : ∀ n key, i.stateAt n = .deferred key → j.stateAt n = .deferred key ∨ (j.stateAt n).isLoaded = true

/-- The instances that a loaded association leads to. -/
def AssociationState.refs : AssociationState → List Ref
  | deferred _ => []
  | one target => target.toList
  | many targets => targets

namespace Instance

variable {i : Instance} {m n : Nat} {t : Ref}

theorem mem_refs_withState {state : AssociationState} (member : t ∈ ((i.withState m state).stateAt n).refs) :
    t ∈ (i.stateAt n).refs ∨ n = m ∧ t ∈ state.refs := by
  rw [stateAt_withState] at member
  split at member
  case isTrue own => exact .inr ⟨own.1, member⟩
  case isFalse => exact .inl member

theorem mem_refs_fill {state : AssociationState} (member : t ∈ ((i.fill m state).stateAt n).refs) :
    t ∈ (i.stateAt n).refs ∨ n = m ∧ t ∈ state.refs := by
  unfold fill at member
  split at member
  · exact .inl member
  · exact mem_refs_withState member

theorem mem_refs_addItem {item : Ref} (member : t ∈ ((i.addItem m item).stateAt n).refs) :
    t ∈ (i.stateAt n).refs ∨ n = m ∧ t = item := by
  unfold addItem at member
  split at member
  case h_1 items collects =>
    split at member
    · exact .inl member
    · rcases mem_refs_withState member with old | ⟨rfl, inside⟩
      · exact .inl old
      · rcases List.mem_append.mp inside with old | new
        · exact .inl (by rw [collects]; exact old)
        · exact .inr ⟨rfl, List.mem_singleton.mp new⟩
  case h_2 => exact .inl member

end Instance

/-- An instance that a row brings into an association: the fetched one into that of its owner, and the owner into the
one of the fetched instance that points back. -/
inductive Attachment.Brings (made : Attachment) (known : EntityKey → Option Ref) (heap : Heap) : Ref → Nat → Ref → Prop
  | own {owner t : Ref} {n : Nat} (owned : known made.owner = some owner)
      (fetched : Hydration.Resolves known made.target (some t))
      (found : (heap.get owner).entity.associationIndex made.association.name = .ok n) : Brings made known heap owner n t
  | back {owner t : Ref} {n : Nat} {mappedBy : String} (owned : known made.owner = some owner)
      (fetched : Hydration.Resolves known made.target (some t)) (inverse : made.association.mappedBy = some mappedBy)
      (points : (heap.get t).entity.associationIndex mappedBy = .ok n) : Brings made known heap t n owner

namespace Hydration

variable {h k : Hydration} {layout : Layout} {rows : List (List Value)}

/-- Until the last row is read, the heap is that of the rows, and so it is when the staged instances are registered. -/
theorem heap_records (valid : h.Staged) :
    (leaves (records layout rows) h).heap = (leaves (recordsOf layout rows) h).heap := by
  cases run : recordsOf layout rows h with
  | ok found after => rw [leaves_of_ok (records_run valid run), leaves_of_ok run]
  | error e after =>
    have failed : records layout rows h = .error e after := by
      unfold records
      rw [bind_run, run]
    rw [leaves_of_error failed, leaves_of_error run]

theorem unwritten_recordsOf {r : Ref} (held : h.heap.Holds r) (unstarted : ∀ n, (r, n) ∉ h.started) :
    (h.heap.get r).Unwritten ((leaves (recordsOf layout rows) h).heap.get r) := by
  have grown := (respects_recordsOf layout rows h).grown r held
  have outcome (n : Nat) := outcome_recordsOf (i := n) layout rows held (unstarted n)
  refine ⟨grown.toAlike, grown.dirty, fun n loaded => ?_, fun n key deferred => ?_⟩
  · cases outcome n with
    | spared _ spares => exact spares.slot
    | loaded _ deferred =>
      rw [slot, loaded] at deferred
      cases deferred
  · cases outcome n with
    | spared _ spares => exact .inl (spares.slot.trans deferred)
    | loaded _ _ now => exact .inr now

/-- The keys that nothing stands for yet, each once, in the order in which they come first. -/
def unknown (h : Hydration) (keys : List EntityKey) : List EntityKey :=
  (keys.filter fun key => (h.lookup key).isNone).eraseDups

theorem unknown_cons_known {key : EntityKey} {r : Ref} (found : h.lookup key = some r) (keys : List EntityKey) :
    h.unknown (key :: keys) = h.unknown keys := by
  rw [unknown, List.filter_cons_of_neg (by rw [found]; exact Bool.false_ne_true), unknown]

/-- A key that is staged is not unknown any more. -/
theorem unknown_cons_fresh {key : EntityKey} (free : h.lookup key = none) (heap : Heap) (r : Ref)
    (keys : List EntityKey) : h.unknown (key :: keys) =
      key :: ({ h with heap, staged := h.staged ++ [(key, r)] } : Hydration).unknown keys := by
  have both (other : EntityKey) : ((!other == key) && (h.lookup other).isNone) =
      (({ h with heap, staged := h.staged ++ [(key, r)] } : Hydration).lookup other).isNone := by
    unfold lookup
    rw [List.lookup_append, ← Option.or_assoc, Option.isNone_or, Bool.and_comm]
    cases same : other == key with
    | true => simp [List.lookup_cons, same]
    | false => simp [List.lookup_cons, same]
  rw [unknown, List.filter_cons_of_pos (by rw [free]; rfl), List.eraseDups_cons, List.filter_filter, unknown]
  simp only [both]

/-- Attaching instances stages and registers nothing. -/
theorem staged_attach {owner : Ref} {a : Association} {target : Option Ref}
    (run : attach owner a target h = .ok () k) : k.staged = h.staged ∧ k.identity = h.identity := by
  have : IsPreorder Hydration fun h k => k.staged = h.staged ∧ k.identity = h.identity :=
    { refl := fun _ => ⟨rfl, rfl⟩
      trans := fun _ _ _ first second => ⟨second.1.trans first.1, second.2.trans first.2⟩ }
  have attaching : Attaching fun h k : Hydration => k.staged = h.staged ∧ k.identity = h.identity :=
    ⟨fun _ _ _ _ => .modify fun _ => ⟨rfl, rfl⟩, fun _ _ _ => .modify fun _ => ⟨rfl, rfl⟩, fun _ _ => ⟨rfl, rfl⟩⟩
  have kept := respects_attach_of attaching owner a target h
  rwa [leaves_of_ok run] at kept

/-- Exactly one instance is staged for each unknown key. -/
theorem Runs.staged {readings : List EntityColumns} {attachments : List Attachment}
    (runs : Runs h readings attachments k) :
    k.staged.map (·.1) = h.staged.map (·.1) ++ h.unknown (readings.filterMap (·.key?)) := by
  induction runs with
  | still => exact (List.append_nil _).symm
  | attach _ _ run _ ih =>
    obtain ⟨staged, identity⟩ := staged_attach run
    simpa only [unknown, lookup, staged, identity] using ih
  | read run _ ih =>
    cases reads_entity run with
    | absent keyless => rwa [List.filterMap_cons_none keyless]
    | known keyed found => rwa [List.filterMap_cons_some keyed, unknown_cons_known found]
    | fresh keyed free =>
      rw [List.filterMap_cons_some keyed, unknown_cons_fresh free, ih, List.map_append, List.append_assoc]
      rfl

variable {r t : Ref} {n : Nat}

theorem mem_refs_change {s : Ref} (f : Instance → Instance) (new : Nat → Ref → Prop)
    (own : ∀ i n t, t ∈ ((f i).stateAt n).refs → t ∈ (i.stateAt n).refs ∨ new n t)
    (member : t ∈ ((h.change s f).slot r n).refs) : t ∈ (h.slot r n).refs ∨ r = s ∧ new n t := by
  by_cases same : r = s
  · subst same
    refine (Heap.get_modify_related (R := fun i j => ∀ n t, t ∈ (j.stateAt n).refs → t ∈ (i.stateAt n).refs ∨ new n t)
      (fun _ _ _ => .inl) h.heap r (own _) r n t member).imp_right fun brought => ⟨rfl, brought⟩
  · rw [slot, change, Heap.get_modify_of_ne same] at member
    exact .inl member

theorem mem_refs_filled {s : Ref} {m : Nat} {state : AssociationState}
    (member : t ∈ ((h.change s (·.fill m state)).slot r n).refs) :
    t ∈ (h.slot r n).refs ∨ r = s ∧ n = m ∧ t ∈ state.refs :=
  mem_refs_change (·.fill m state) _ (fun _ _ _ => Instance.mem_refs_fill) member

theorem mem_refs_opened {owner : Ref} {m : Nat} (member : t ∈ ((h.opened owner m).slot r n).refs) :
    t ∈ (h.slot r n).refs := by
  unfold opened at member
  split at member
  · exact member
  · exact (mem_refs_filled member).resolve_right fun new => absurd new.2.2 List.not_mem_nil

theorem mem_refs_collected {owner : Ref} {m : Nat} {target : Option Ref}
    (member : t ∈ ((h.collected owner m target).slot r n).refs) :
    t ∈ (h.slot r n).refs ∨ r = owner ∧ n = m ∧ target = some t := by
  cases target with
  | none => exact .inl member
  | some item =>
    have added := mem_refs_change (·.addItem m item) _ (fun _ _ _ => Instance.mem_refs_addItem) member
    refine added.imp_right ?_
    rintro ⟨own, at_, rfl⟩
    exact ⟨own, at_, rfl⟩

theorem mem_refs_pointBack {owner : Ref} {a : Association} {target : Option Ref}
    (member : t ∈ ((leaves (pointBack owner a target) h).slot r n).refs) : t ∈ (h.slot r n).refs ∨
      target = some r ∧ t = owner ∧ ∃ mappedBy, a.mappedBy = some mappedBy ∧
        (h.heap.get r).entity.associationIndex mappedBy = .ok n := by
  rcases pointBack_cases owner a target h with same | ⟨s, mappedBy, back, fetched, inverse, points⟩
  · rw [same] at member
    exact .inl member
  · rw [fetched, leaves_pointBack inverse points] at member
    refine (mem_refs_filled member).imp_right ?_
    rintro ⟨rfl, rfl, inside⟩
    exact ⟨fetched, (List.mem_singleton.mp inside), mappedBy, inverse, points⟩

/-- What attaching adds to the associations of all instances. -/
theorem mem_refs_attach {made : Attachment} {owner : Ref} {target : Option Ref}
    (owned : h.lookup made.owner = some owner) (resolves : Resolves h.lookup made.target target)
    (member : t ∈ ((leaves (attach owner made.association target) h).slot r n).refs) :
    t ∈ (h.slot r n).refs ∨ made.Brings h.lookup h.heap r n t := by
  cases found : (h.heap.get owner).entity.associationIndex made.association.name with
  | error e =>
    rw [leaves_of_error (attach_undeclared found target)] at member
    exact .inl member
  | ok index =>
    -- Before the way back only the owner gains an instance, and every instance keeps its entity.
    have around (k : Hydration) (alike : ∀ s, (h.heap.get s).Alike (k.heap.get s))
        (gained : t ∈ (k.slot r n).refs → t ∈ (h.slot r n).refs ∨ r = owner ∧ n = index ∧ target = some t)
        (member : t ∈ ((leaves (pointBack owner made.association target) k).slot r n).refs) :
        t ∈ (h.slot r n).refs ∨ made.Brings h.lookup h.heap r n t := by
      rcases mem_refs_pointBack member with before | ⟨rfl, rfl, mappedBy, inverse, points⟩
      · refine (gained before).imp_right ?_
        rintro ⟨rfl, rfl, rfl⟩
        exact .own owned resolves found
      · rw [(alike r).entity] at points
        exact .inr (.back owned resolves inverse points)
    rw [leaves_attach found] at member
    cases cardinality : made.association.cardinality with
    | one =>
      rw [cardinality] at member
      refine around _ (h.alike_change owner fun j => j.alike_fill index _) (fun inside => ?_) member
      refine (mem_refs_filled inside).imp_right ?_
      rintro ⟨own, at_, new⟩
      exact ⟨own, at_, Option.mem_toList.mp new⟩
    | many =>
      rw [cardinality] at member
      dsimp only at member
      split at member
      · exact .inl member
      · refine around _ (h.alike_filled owner index target) (fun inside => ?_) member
        exact (mem_refs_collected inside).imp_left mem_refs_opened

theorem refs_instanceOf {e : Entity} {id : Value} {columns : List Value} {i : Instance}
    (made : instanceOf e id columns = .ok i) (n : Nat) : (i.stateAt n).refs = [] := by
  rcases stateAt_instanceOf made n with ⟨a, _, read⟩ | ⟨_, none⟩
  · unfold stateOf at read
    split at read
    · rw [← Except.ok.inj read]
      rfl
    · obtain ⟨key, _, read⟩ := Except.bind_eq_ok.mp read
      rw [← Except.ok.inj read]
      split <;> rfl
  · rw [none]
    rfl

theorem Reads.mem_refs {q : EntityColumns} {found : Option Ref} (reads : Reads q h found k)
    (member : t ∈ (k.slot r n).refs) : t ∈ (h.slot r n).refs := by
  cases reads with
  | absent => exact member
  | known => exact member
  | @fresh _ _ i _ _ _ _ made =>
    by_cases new : r = (h.heap.allocate i).1
    · rw [slot, new, Heap.get_allocated, refs_instanceOf made] at member
      exact absurd member List.not_mem_nil
    · rw [slot, Heap.get_allocate_of_ne new] at member
      exact member

theorem brings_extends {made : Attachment} (extended : h.Extends k)
    (brings : made.Brings h.lookup h.heap r n t) : made.Brings k.lookup k.heap r n t := by
  have entity {s : Ref} {name : String} {m : Nat} (found : (h.heap.get s).entity.associationIndex name = .ok m) :
      (k.heap.get s).entity.associationIndex name = .ok m := by
    rwa [(extended.grown s (Heap.holds_of_associationIndex found)).entity]
  cases brings with
  | own owned fetched found => exact .own (extended.lookup owned) (fetched.extends extended) (entity found)
  | back owned fetched inverse points =>
    exact .back (extended.lookup owned) (fetched.extends extended) inverse (entity points)

/-- Whatever an association leads to was there before, or is brought by the attachment of a row. -/
theorem Runs.brought {readings : List EntityColumns} {attachments : List Attachment}
    (runs : Runs h readings attachments k) (member : t ∈ (k.slot r n).refs) :
    t ∈ (h.slot r n).refs ∨ ∃ made ∈ attachments, made.Brings k.lookup k.heap r n t := by
  induction runs with
  | still => exact .inl member
  | read run _ ih => exact (ih member).imp_left fun inside => (reads_entity run).mem_refs inside
  | @attach made owner target h middle k _ attachments owned resolves run next ih =>
    rcases ih member with inside | ⟨other, later, brings⟩
    · rw [← leaves_of_ok run] at inside
      refine (mem_refs_attach owned resolves inside).imp_right fun brings => ⟨made, List.mem_cons_self, ?_⟩
      exact brings_extends (trans_of Extends (extends_of_attach run) next.extends) brings
    · exact .inr ⟨other, List.mem_cons_of_mem _ later, brings⟩

/-- What rows add that are all materialized. The identity map gains one entry for each key of the rows that it did not
have, each with a new instance of that key, and the cells of the records and the associations show the instances that
it then has for the keys of the rows. -/
structure Materialized (layout : Layout) (rows : List (List Value)) (heap : Heap) (identity : IdentityMap)
    (found : List Record) (k : Hydration) : Prop where
  entries : ∃ more, k.identity.entries = identity.entries ++ more ∧
    more.map (·.1) = ((rows.flatMap layout.keys).filter fun key => (identity.get? key).isNone).eraseDups ∧
    ∀ key r, (key, r) ∈ more → ¬heap.Holds r ∧ (k.heap.get r).key = .ok key
  records : List.Forall₂ (ShowsAll k.identity.get? layout) rows found
  associations : ∀ r n t, t ∈ (k.slot r n).refs → t ∈ ((heap.get r).stateAt n).refs ∨
    ∃ made ∈ rows.flatMap layout.attachments, made.Brings k.identity.get? k.heap r n t

/-- The keys of the rows that are not registered are staged, each once. -/
theorem staged_keys (kinds : ∀ item ∈ layout.items, item.kind = item.projection.kind) {heap : Heap}
    {identity : IdentityMap} {found : List Record} (read : recordsOf layout rows ⟨heap, identity, [], []⟩ = .ok found k) :
    k.staged.map (·.1) = ((rows.flatMap layout.keys).filter fun key => (identity.get? key).isNone).eraseDups := by
  obtain ⟨runs, -⟩ := runs_recordsOf kinds read
  rw [runs.staged, List.filterMap_flatMap]
  simp only [unknown, lookup, List.lookup_nil, Option.or_none]
  rfl

theorem materialized_records (kinds : ∀ item ∈ layout.items, item.kind = item.projection.kind) {heap : Heap}
    {identity : IdentityMap} {found : List Record}
    (run : records layout rows ⟨heap, identity, [], []⟩ = .ok found k) :
    Materialized layout rows heap identity found k := by
  obtain ⟨last, read, heap', entries, known⟩ := records_ok run
  obtain ⟨runs, shows⟩ := runs_recordsOf kinds read
  have extended := runs.extends
  obtain ⟨more, staged, fresh⟩ := extended.staged
  rw [List.nil_append] at staged
  refine ⟨⟨last.staged, entries, staged_keys kinds read, fun key r member => ⟨?_, ?_⟩⟩, ?_, fun r n t member => ?_⟩
  · have size := fresh (key, r) (staged ▸ member)
    exact Nat.not_lt.mpr size
  · rw [heap']
    exact (extended.valid (staged_nil heap identity [])).keyed key r member
  · rw [known]
    exact shows
  · rw [slot, heap'] at member
    rw [known, heap']
    exact runs.brought member

end Hydration

/-- Hydration never overwrites. Whether the rows of a compiled query are materialized or not, the registered instances
are left unwritten; where they are, the identity map is continued and shows one instance for each key. -/
theorem Hydration.unwritten_records {registry : Registry} {d : Dialect} {p : Plan} {query : CompiledQuery}
    (compiled : compile registry d p = .ok query) {heap : Heap} {identity : IdentityMap}
    (held : ∀ r ∈ identity.refs, heap.Holds r) (rows : List (List Value)) :
    (∀ r ∈ identity.refs, (heap.get r).Unwritten
      ((leaves (records query.layout rows) ⟨heap, identity, [], []⟩).heap.get r)) ∧
      ∀ found k, records query.layout rows ⟨heap, identity, [], []⟩ = .ok found k →
        Materialized query.layout rows heap identity found k := by
  have sound := Layout.sound_of_compile compiled
  refine ⟨fun r member => ?_, fun found k run => materialized_records sound.kinds run⟩
  rw [heap_records (staged_nil heap identity [])]
  exact unwritten_recordsOf (h := ⟨heap, identity, [], []⟩) (held r member) fun _ => List.not_mem_nil

open Hydration

/-- Two players of a registered team come with two rows. The team is the registered one in both of them. -/
theorem unwritten_records_roster : (∀ r ∈ rosterIdentity.refs, rosterHeap.Holds r) ∧ ∃ query found k,
    compile ⟨[teamEntity, playerEntity]⟩ .postgres rosterPlan = .ok query ∧
      records query.layout twoPlayers.rows ⟨rosterHeap, rosterIdentity, [], []⟩ = .ok found k ∧
      k.identity.refs = [⟨0⟩, ⟨1⟩, ⟨2⟩] ∧ (rosterHeap.get ⟨0⟩).Unwritten (k.heap.get ⟨0⟩) ∧
      Materialized query.layout twoPlayers.rows rosterHeap rosterIdentity found k := by
  have held : ∀ r ∈ rosterIdentity.refs, rosterHeap.Holds r := fun _ member => by
    cases List.mem_singleton.mp member
    exact Nat.zero_lt_one
  have compiled : compile ⟨[teamEntity, playerEntity]⟩ .postgres rosterPlan = .ok ⟨_, rosterLayout⟩ := rfl
  obtain ⟨kept, materialized⟩ := unwritten_records compiled held twoPlayers.rows
  exact ⟨held, _, _, _, compiled, rfl, rfl, kept ⟨0⟩ List.mem_cons_self, materialized _ _ rfl⟩

end EntityMapper
