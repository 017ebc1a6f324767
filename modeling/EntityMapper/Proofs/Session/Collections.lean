import EntityMapper.Proofs.Session.RowKeys
import EntityMapper.Proofs.Session.RowListings
import Mathlib.Data.List.ReduceOption

namespace EntityMapper

/-- A list with further items behind it, each where it comes first and only if it is new. -/
def gather (items more : List Ref) : List Ref := items ++ (more.filter (· ∉ items)).eraseDups

theorem gather_nil (items : List Ref) : gather items [] = items := List.append_nil items

theorem gather_cons (items more : List Ref) (item : Ref) :
    gather items (item :: more) = gather (if item ∈ items then items else items ++ [item]) more := by
  by_cases known : item ∈ items
  · rw [if_pos known, gather, List.filter_cons_of_neg (by simpa using known), gather]
  · have others : (fun other => !other == item && decide (other ∉ items)) =
        fun other => decide (other ∉ items ++ [item]) := by
      funext other
      rw [beq_eq_decide]
      simp [not_or, Bool.and_comm]
    rw [if_neg known, gather, List.filter_cons_of_pos (by simpa using known), List.eraseDups_cons, List.filter_filter,
      others, gather, List.append_assoc, List.singleton_append]

theorem gather_of_nil (more : List Ref) : gather [] more = more.eraseDups := by
  rw [gather, List.nil_append, List.filter_eq_self.mpr fun item _ => decide_eq_true List.not_mem_nil]

theorem Entity.associationIndex_inj {e : Entity} {name other : String} {n : Nat}
    (found : e.associationIndex name = .ok n) (also : e.associationIndex other = .ok n) : name = other := by
  have declared := Instance.association_of_associationIndex found
  exact (name_of_associationIndex found declared).symm.trans (name_of_associationIndex also declared)

namespace Hydration

/-- What rows have done so far for a collection: nothing, and it waits for its first row, or they fill it. -/
inductive Collects (h : Hydration) (r : Ref) (n : Nat) : Option (List Ref) → Prop
  | waiting (unstarted : (r, n) ∉ h.started) (deferred : h.heap.Holds r → (h.slot r n).isLoaded = false) :
      Collects h r n none
  | filling {items : List Ref} (started : (r, n) ∈ h.started) (filled : h.slot r n = .many items) :
      Collects h r n (some items)

/-- A collection is left as it is. -/
structure Aside (r : Ref) (n : Nat) (h k : Hydration) : Prop where
  slot : k.slot r n = h.slot r n
  started : (r, n) ∈ k.started ↔ (r, n) ∈ h.started
  holds : k.heap.Holds r ↔ h.heap.Holds r

variable {h k l : Hydration} {r owner : Ref} {n m : Nat} {a : Association} {target : Option Ref}

theorem Aside.refl (r : Ref) (n : Nat) (h : Hydration) : Aside r n h h := ⟨rfl, .rfl, .rfl⟩

theorem Aside.trans (first : Aside r n h k) (second : Aside r n k l) : Aside r n h l :=
  ⟨second.slot.trans first.slot, second.started.trans first.started, second.holds.trans first.holds⟩

theorem Collects.aside {c : Option (List Ref)} (collects : h.Collects r n c) (aside : Aside r n h k) :
    k.Collects r n c := by
  cases collects with
  | waiting unstarted deferred =>
    exact .waiting (mt aside.started.mp unstarted) fun held => by rw [aside.slot, deferred (aside.holds.mp held)]
  | filling started filled => exact .filling (aside.started.mpr started) (aside.slot.trans filled)

theorem aside_change {f : Instance → Instance} (alike : ∀ j, Instance.Alike j (f j))
    (same : r = owner → (f (h.heap.get r)).stateAt n = (h.heap.get r).stateAt n) : Aside r n h (h.change owner f) :=
  ⟨(spares_change h alike same).slot, .rfl, Heap.holds_modify⟩

theorem aside_fill (state : AssociationState) (apart : r = owner → n ≠ m) :
    Aside r n h (h.change owner (·.fill m state)) :=
  aside_change (fun j => j.alike_fill m state) fun own => Instance.stateAt_fill fun same => absurd same (apart own)

theorem aside_opened (apart : r = owner → n ≠ m) : Aside r n h (h.opened owner m) := by
  unfold opened
  split
  · exact .refl r n h
  · have start : Aside r n h { h with started := (owner, m) :: h.started } := by
      refine ⟨rfl, ⟨fun member => (List.mem_cons.mp member).resolve_left fun same => ?_, List.mem_cons_of_mem _⟩, .rfl⟩
      cases same
      exact apart rfl rfl
    exact start.trans (aside_fill _ apart)

theorem aside_collected (apart : r = owner → n ≠ m) (target : Option Ref) :
    Aside r n h (h.collected owner m target) := by
  cases target with
  | none => exact .refl r n h
  | some item => exact aside_change (fun j => j.alike_addItem m item) fun own => Instance.stateAt_addItem (apart own)

/-- No way back of an attachment leads to the collection. -/
def OneWay (h : Hydration) (r : Ref) (n : Nat) (a : Association) (target : Option Ref) : Prop :=
  target = some r → ∀ mappedBy, a.mappedBy = some mappedBy → (h.heap.get r).entity.associationIndex mappedBy ≠ .ok n

theorem OneWay.alike (away : h.OneWay r n a target) (alike : ∀ s, (h.heap.get s).Alike (k.heap.get s)) :
    k.OneWay r n a target := fun fetched mappedBy inverse points =>
  away fetched mappedBy inverse (by rwa [← (alike r).entity])

theorem aside_pointBack (away : h.OneWay r n a target) (owner : Ref) :
    Aside r n h (leaves (pointBack owner a target) h) := by
  rcases pointBack_cases owner a target h with same | ⟨t, mappedBy, back, fetched, inverse, points⟩
  · rw [same]
    exact .refl r n h
  · rw [fetched, leaves_pointBack inverse points]
    refine aside_fill _ ?_
    rintro rfl rfl
    exact away fetched mappedBy inverse points

/-- Attaching through another association, or to another owner, leaves a collection as it is. -/
theorem aside_attach (apart : r = owner → (h.heap.get r).entity.associationIndex a.name ≠ .ok n)
    (away : h.OneWay r n a target) : Aside r n h (leaves (attach owner a target) h) := by
  cases found : (h.heap.get owner).entity.associationIndex a.name with
  | error e =>
    rw [leaves_of_error (attach_undeclared found target)]
    exact .refl r n h
  | ok index =>
    have other : r = owner → n ≠ index := by
      rintro rfl rfl
      exact apart rfl found
    rw [leaves_attach found]
    cases a.cardinality with
    | one =>
      exact (aside_fill _ other).trans
        (aside_pointBack (away.alike (h.alike_change owner fun j => j.alike_fill index _)) _)
    | many =>
      dsimp only
      split
      · exact .refl r n h
      · exact ((aside_opened other).trans (aside_collected other target)).trans
          (aside_pointBack (away.alike (h.alike_filled owner index target)) _)

theorem Collects.opened {c : Option (List Ref)} (collects : h.Collects r n c) (held : h.heap.Holds r) :
    (h.opened r n).Collects r n (some (c.getD [])) := by
  cases collects with
  | waiting unstarted deferred =>
    rw [Hydration.opened, if_neg unstarted]
    refine .filling List.mem_cons_self ?_
    rw [slot, change, Heap.get_modify_self held]
    exact Instance.stateAt_fill_self (deferred held) _
  | filling started filled =>
    rw [Hydration.opened, if_pos started]
    exact .filling started filled

theorem Collects.collected {items : List Ref} (collects : h.Collects r n (some items)) (target : Option Ref) :
    (h.collected r n target).Collects r n (some (gather items target.toList)) := by
  cases collects with
  | filling started filled =>
    cases target with
    | none =>
      rw [Option.toList_none, gather_nil]
      exact .filling started filled
    | some item =>
      refine .filling started ?_
      have held : h.heap.Holds r := by
        by_contra free
        rw [slot, Heap.get_of_not_holds free] at filled
        cases filled
      rw [Option.toList_some, gather_cons, gather_nil, slot, Hydration.collected, Option.elim_some, change,
        Heap.get_modify_self held]
      exact Instance.stateAt_addItem_self filled item

/-- A collection after one more attachment to its owner. -/
def collect (c : Option (List Ref)) (target : Option Ref) : Option (List Ref) :=
  some (gather (c.getD []) target.toList)

/-- Attaching to a collection that waits or is filled fills it further. -/
theorem Collects.attach {c : Option (List Ref)} (collects : h.Collects r n c)
    (found : (h.heap.get r).entity.associationIndex a.name = .ok n) (many : a.cardinality = .many)
    (away : h.OneWay r n a target) : (leaves (Hydration.attach r a target) h).Collects r n (collect c target) := by
  have held := Heap.holds_of_associationIndex found
  have fills : ¬((r, n) ∉ h.started ∧ (h.slot r n).isLoaded = true) := by
    cases collects with
    | waiting _ deferred => exact fun both => by simp [deferred held] at both
    | filling started _ => exact fun both => both.1 started
  rw [leaves_attach found, many]
  dsimp only
  rw [if_neg fills]
  exact ((collects.opened held).collected target).aside (aside_pointBack (away.alike (h.alike_filled r n target)) r)

/-- The collection of a new owner waits, as do those of others that waited before. -/
theorem Collects.read {q : EntityColumns} {found : Option Ref} {c : Option (List Ref)} (collects : h.Collects r n c)
    (reads : Reads q h found k)
    (inverse : k.heap.Holds r → q.entity = (k.heap.get r).entity →
      ∃ c, q.entity.associations[n]? = some c ∧ c.isOwning = false) :
    k.Collects r n c := by
  cases reads with
  | absent => exact collects
  | known => exact collects
  | @fresh key id i _ _ coerced usable made =>
    by_cases new : r = (h.heap.allocate i).1
    · cases collects with
      | filling started filled =>
        have free : ¬h.heap.Holds r := new ▸ Nat.lt_irrefl _
        rw [slot, Heap.get_of_not_holds free] at filled
        cases filled
      | waiting unstarted _ =>
        refine .waiting unstarted fun held => ?_
        have own := inverse held
        dsimp only at own
        rw [new, Heap.get_allocated] at own
        rw [slot, new, Heap.get_allocated]
        obtain ⟨entity, _⟩ := instanceOf_id made coerced usable
        obtain ⟨b, declared, seen⟩ := own entity.symm
        rcases stateAt_instanceOf made n with ⟨other, also, state⟩ | ⟨none, _⟩
        · cases declared.symm.trans also
          rw [stateOf, seen, Bool.not_false, if_pos rfl] at state
          rw [← Except.ok.inj state]
          rfl
        · cases declared.symm.trans none
    · refine collects.aside ⟨?_, .rfl, ?_⟩
      · rw [slot, Heap.get_allocate_of_ne new, slot]
      · exact Heap.holds_allocate_of_ne new

/-- The instances, or none, that attachments have for an association of an owner. -/
def targetsOf (known : EntityKey → Option Ref) (owner : Ref) (a : Association) (attachments : List Attachment) :
    List (Option Ref) :=
  (attachments.filter fun made => known made.owner = some owner ∧ made.association = a).map (·.target.bind known)

/-- The collection of an instance behind an association is filled by this association alone: no other one of its owner
has its name, no way back has it, and those of new instances wait. -/
structure Fills (l : Hydration) (r : Ref) (n : Nat) (a : Association) (readings : List EntityColumns)
    (attachments : List Attachment) : Prop where
  declared : (l.heap.get r).entity.associationIndex a.name = .ok n
  many : a.cardinality = .many
  single : ∀ made ∈ attachments, l.lookup made.owner = some r → made.association.name = a.name → made.association = a
  inverse : ∀ q ∈ readings, q.entity = (l.heap.get r).entity →
    ∃ c, q.entity.associations[n]? = some c ∧ c.isOwning = false
  away : ∀ made ∈ attachments, Resolves l.lookup made.target (some r) → made.association.mappedBy ≠ some a.name

/-- A collection ends as the attachments of its association to its owner make it, one after the other. -/
theorem Runs.collects {readings : List EntityColumns} {attachments : List Attachment} {c : Option (List Ref)}
    (runs : Runs h readings attachments l) (fills : l.Fills r n a readings attachments) (collects : h.Collects r n c) :
    l.Collects r n ((targetsOf l.lookup r a attachments).foldl collect c) := by
  induction runs generalizing c with
  | still => exact collects
  | @read q h k l found readings attachments run next ih =>
    obtain ⟨inverse, others⟩ := List.forall_mem_cons.mp fills.inverse
    have waits := collects.read (reads_entity run) fun held own =>
      inverse (own.trans (next.extends.grown r held).entity.symm)
    exact ih ⟨fills.declared, fills.many, fills.single, others, fills.away⟩ waits
  | @attach made owner target h k l readings attachments owned resolves run next ih =>
    obtain ⟨single, others⟩ := List.forall_mem_cons.mp fills.single
    obtain ⟨away, later⟩ := List.forall_mem_cons.mp fills.away
    have extended := trans_of Extends (extends_of_attach run) next.extends
    have continued {c : Option (List Ref)} (collects : k.Collects r n c) :=
      ih ⟨fills.declared, fills.many, others, fills.inverse, later⟩ collects
    have entity {s : Ref} {name : String} {m : Nat} (found : (h.heap.get s).entity.associationIndex name = .ok m) :
        (l.heap.get s).entity.associationIndex name = .ok m := by
      rwa [(extended.grown s (Heap.holds_of_associationIndex found)).entity]
    have oneWay : h.OneWay r n made.association target := by
      rintro rfl mappedBy inverse points
      refine away (resolves.extends extended) ?_
      rw [inverse, Entity.associationIndex_inj (entity points) fills.declared]
    have kept := leaves_of_ok run
    by_cases own : l.lookup made.owner = some r ∧ made.association = a
    · obtain ⟨led, rfl⟩ := own
      cases (extended.lookup owned).symm.trans led
      have found : (h.heap.get r).entity.associationIndex made.association.name = .ok n := by
        cases missing : (h.heap.get r).entity.associationIndex made.association.name with
        | error e => cases (attach_undeclared missing target).symm.trans run
        | ok m => rw [← fills.declared, entity missing]
      have filled := collects.attach found fills.many oneWay
      rw [kept, ← (resolves.extends extended).eq] at filled
      rw [targetsOf, List.filter_cons_of_pos (by simpa using led), List.map_cons, List.foldl_cons]
      exact continued filled
    · have apart : r = owner → (h.heap.get r).entity.associationIndex made.association.name ≠ .ok n := by
        rintro rfl found
        have name := Entity.associationIndex_inj (entity found) fills.declared
        exact own ⟨extended.lookup owned, single (extended.lookup owned) name⟩
      have aside := aside_attach apart oneWay
      rw [kept] at aside
      rw [targetsOf, List.filter_cons_of_neg (by simpa using own)]
      exact continued (collects.aside aside)

/-- What a collection that waited holds in the end, once it has an attachment: the distinct instances in order. -/
theorem foldl_collect (targets : List (Option Ref)) (c : Option (List Ref)) (some : targets ≠ [] ∨ c.isSome) :
    targets.foldl collect c = .some (gather (c.getD []) targets.reduceOption) := by
  induction targets generalizing c with
  | nil =>
    obtain ⟨items, rfl⟩ := Option.isSome_iff_exists.mp (some.resolve_left fun none => none rfl)
    rw [List.reduceOption_nil, gather_nil]
    rfl
  | cons target rest ih =>
    rw [List.foldl_cons, ih _ (.inr rfl), collect, Option.getD_some]
    cases target with
    | none => rw [Option.toList_none, gather_nil, List.reduceOption_cons_of_none]
    | some item => rw [Option.toList_some, List.reduceOption_cons_of_some, gather_cons, gather_nil, gather_cons]

end Hydration

end EntityMapper
