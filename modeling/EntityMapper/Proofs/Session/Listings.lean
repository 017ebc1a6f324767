import EntityMapper.Proofs.Session.FailedRows
import EntityMapper.Proofs.Session.Lasting

namespace EntityMapper

/-- The instances in a loaded collection. -/
def AssociationState.items : AssociationState → List Ref
  | many targets => targets
  | _ => []

/-- What is loaded stays loaded with the same target, or as a collection. -/
structure Instance.Develops (i j : Instance) : Prop where
  entity : j.entity = i.entity
  reference : ∀ n target, i.stateAt n = .one target → j.stateAt n = .one target
  collection : ∀ n items, i.stateAt n = .many items → ∃ more, j.stateAt n = .many more

namespace Instance

theorem Develops.refl (i : Instance) : i.Develops i := ⟨rfl, fun _ _ same => same, fun _ items same => ⟨items, same⟩⟩

theorem Develops.trans {i j k : Instance} (first : i.Develops j) (second : j.Develops k) : i.Develops k := by
  refine ⟨second.entity.trans first.entity, fun n target same => ?_, fun n items same => ?_⟩
  · exact second.reference n target (first.reference n target same)
  · obtain ⟨more, later⟩ := first.collection n items same
    exact second.collection n more later

theorem Develops.of_states {i j : Instance} (entity : j.entity = i.entity) (states : j.states = i.states) :
    i.Develops j := by
  have same (n : Nat) : j.stateAt n = i.stateAt n := by rw [stateAt, states, stateAt]
  exact ⟨entity, fun n target at_ => (same n).trans at_, fun n items at_ => ⟨items, (same n).trans at_⟩⟩

theorem inside_of_many {i : Instance} {n : Nat} {items : List Ref} (collects : i.stateAt n = .many items) :
    n < i.states.length := by
  by_contra outside
  rw [stateAt, List.getD_eq_getElem?_getD, List.getElem?_eq_none (Nat.not_lt.mp outside)] at collects
  cases collects

theorem stateAt_fill_of_loaded {i : Instance} {n : Nat} (loaded : (i.stateAt n).isLoaded = true) (index : Nat)
    (state : AssociationState) : (i.fill index state).stateAt n = i.stateAt n :=
  stateAt_fill fun _ => loaded

theorem stateAt_fill_self {i : Instance} {n : Nat} (deferred : (i.stateAt n).isLoaded = false)
    (state : AssociationState) : (i.fill n state).stateAt n = state := by
  rw [fill, if_neg (by rw [deferred]; exact Bool.false_ne_true), stateAt_withState,
    if_pos ⟨rfl, inside_of_deferred deferred⟩]

theorem develops_fill (i : Instance) (index : Nat) (state : AssociationState) : i.Develops (i.fill index state) := by
  refine ⟨(i.alike_fill index state).entity, fun n target same => ?_, fun n items same => ⟨items, ?_⟩⟩
  · rw [stateAt_fill_of_loaded (by rw [same]; rfl), same]
  · rw [stateAt_fill_of_loaded (by rw [same]; rfl), same]

theorem stateAt_addItem_self {i : Instance} {n : Nat} {items : List Ref} (collects : i.stateAt n = .many items)
    (item : Ref) : (i.addItem n item).stateAt n = .many (if item ∈ items then items else items ++ [item]) := by
  unfold addItem
  rw [collects]
  dsimp only
  split
  · exact collects
  · rw [stateAt_withState, if_pos ⟨rfl, inside_of_many collects⟩]

theorem addItem_of_not_many {i : Instance} {n : Nat} (other : ∀ items, i.stateAt n ≠ .many items) (item : Ref) :
    i.addItem n item = i := by
  unfold addItem
  split
  case h_1 items collects => exact absurd collects (other items)
  case h_2 => rfl

theorem develops_addItem (i : Instance) (index : Nat) (item : Ref) : i.Develops (i.addItem index item) := by
  refine ⟨(i.alike_addItem index item).entity, fun n target same => ?_, fun n items same => ?_⟩
  · by_cases at_ : n = index
    · subst at_
      rw [addItem_of_not_many (by simp [same]), same]
    · rw [stateAt_addItem at_, same]
  · by_cases at_ : n = index
    · subst at_
      exact ⟨_, stateAt_addItem_self same item⟩
    · exact ⟨items, by rw [stateAt_addItem at_, same]⟩

end Instance

/-- The association at `index` of an entity is the inverse of the owning association at `place` of another one. -/
def Entity.Faces (e : Entity) (index : Nat) (f : Entity) (place : Nat) : Prop :=
  ∃ a mappedBy b, e.associations[index]? = some a ∧ a.mappedBy = some mappedBy ∧
    f.associationIndex mappedBy = .ok place ∧ f.associations[place]? = some b ∧ b.isOwning = true

/-- An inverse association is no owning one. -/
theorem Entity.Faces.ne {e f : Entity} {index place : Nat} (faces : e.Faces index f place) (same : e = f) :
    index ≠ place := by
  rintro rfl
  subst same
  obtain ⟨a, mappedBy, b, declared, inverse, _, owning, owns⟩ := faces
  cases declared.symm.trans owning
  rw [Association.isOwning, inverse] at owns
  cases owns

namespace Heap

/-- A loaded collection of an instance holds another one. -/
def Lists (h : Heap) (owner : Ref) (index : Nat) (item : Ref) : Prop := item ∈ ((h.get owner).stateAt index).items

/-- Whatever is in a collection has the owning side of the association loaded, and it leads back to the owner of the
collection. -/
def BothSides (h : Heap) : Prop :=
  ∀ owner index item place, h.Lists owner index item → (h.get owner).entity.Faces index (h.get item).entity place →
    (h.get item).stateAt place = .one (some owner)

/-- Collections hold instances that are there. -/
def Closed (h : Heap) : Prop := ∀ owner index item, h.Lists owner index item → h.Holds item

theorem Lists.holds {h : Heap} {owner item : Ref} {index : Nat} (lists : h.Lists owner index item) : h.Holds owner := by
  by_contra free
  rw [Lists, get_of_not_holds free] at lists
  exact absurd lists List.not_mem_nil

/-- Instances develop, others may come, and the collections gain exactly what is added. -/
structure Accounts (h : Heap) (added : Ref → Nat → Ref → Prop) (k : Heap) : Prop where
  size : h.instances.size ≤ k.instances.size
  developed : ∀ r, h.Holds r → (h.get r).Develops (k.get r)
  listed : ∀ owner index item, k.Lists owner index item ↔ h.Lists owner index item ∨ added owner index item
  held : ∀ owner index item, added owner index item → k.Holds item

/-- Instances develop, others may come, and no collection gains anything. -/
def Quiet (h k : Heap) : Prop := h.Accounts (fun _ _ _ => False) k

variable {h k l : Heap} {added more : Ref → Nat → Ref → Prop}

theorem Accounts.holds (accounts : h.Accounts added k) {r : Ref} (held : h.Holds r) : k.Holds r :=
  Nat.lt_of_lt_of_le held accounts.size

theorem Accounts.congr (accounts : h.Accounts added k)
    (same : ∀ owner index item, added owner index item ↔ more owner index item) : h.Accounts more k := by
  refine ⟨accounts.size, accounts.developed, fun owner index item => ?_, fun owner index item new => ?_⟩
  · rw [accounts.listed, same]
  · exact accounts.held owner index item ((same owner index item).mpr new)

theorem Accounts.trans (first : h.Accounts added k) (second : k.Accounts more l) :
    h.Accounts (fun owner index item => added owner index item ∨ more owner index item) l := by
  refine ⟨Nat.le_trans first.size second.size, ?_, ?_, ?_⟩
  · exact fun r held => (first.developed r held).trans (second.developed r (first.holds held))
  · intro owner index item
    rw [second.listed, first.listed, or_assoc]
  · rintro owner index item (early | late)
    · exact second.holds (first.held owner index item early)
    · exact second.held owner index item late

theorem Quiet.refl (h : Heap) : h.Quiet h :=
  ⟨Nat.le_refl _, fun _ _ => .refl _, fun _ _ _ => (or_iff_left id).symm, fun _ _ _ none => none.elim⟩

theorem Accounts.quiet (accounts : h.Accounts added k) (quiet : k.Quiet l) : h.Accounts added l :=
  (accounts.trans quiet).congr fun _ _ _ => or_iff_left id

theorem Quiet.accounts (quiet : h.Quiet k) (accounts : k.Accounts added l) : h.Accounts added l :=
  (Accounts.trans quiet accounts).congr fun _ _ _ => or_iff_right id

instance : IsPreorder Heap Quiet where
  refl := Quiet.refl
  trans _ _ _ first second := Accounts.quiet first second

/-- Collections still hold instances that are there, and both sides, if they agreed, do so as long as nothing goes
wrong. -/
def Decides (h : Heap) (wrong : Prop) (k : Heap) : Prop :=
  h.Closed → k.Closed ∧ (h.BothSides → (k.BothSides ↔ ¬wrong))

theorem Decides.congr {wrong other : Prop} (decides : h.Decides wrong k) (same : wrong ↔ other) : h.Decides other k :=
  fun closed => ⟨(decides closed).1, fun agree => ((decides closed).2 agree).trans (not_congr same)⟩

/-- What is added to collections decides it: its own side has to lead to the owner of the collection. -/
theorem Accounts.decides (accounts : h.Accounts added k) :
    h.Decides (∃ owner index item place, added owner index item ∧
      (k.get owner).entity.Faces index (k.get item).entity place ∧
        (k.get item).stateAt place ≠ .one (some owner)) k := by
  intro closed
  refine ⟨fun owner index item lists => ?_, fun agree => ⟨?_, fun answered owner index item place lists faces => ?_⟩⟩
  · rcases (accounts.listed owner index item).mp lists with old | new
    · exact accounts.holds (closed owner index item old)
    · exact accounts.held owner index item new
  · rintro both ⟨owner, index, item, place, new, faces, other⟩
    exact other (both owner index item place ((accounts.listed owner index item).mpr (.inr new)) faces)
  · rcases (accounts.listed owner index item).mp lists with old | new
    · have owns := accounts.developed owner old.holds
      have holds := accounts.developed item (closed owner index item old)
      rw [owns.entity, holds.entity] at faces
      exact holds.reference place _ (agree owner index item place old faces)
    · by_contra other
      exact answered ⟨owner, index, item, place, new, faces, other⟩

theorem Quiet.decides (quiet : h.Quiet k) : h.Decides False k :=
  (Accounts.decides quiet).congr <| iff_false_intro fun wrong => by
    obtain ⟨_, _, _, _, nothing, _⟩ := wrong
    exact nothing

theorem Quiet.decides_never {wrong : Prop} (quiet : h.Quiet k) (never : ¬wrong) : h.Decides wrong k :=
  quiet.decides.congr (iff_of_false id never)

/-- Before anything is added nothing can go wrong. -/
theorem Quiet.decides_next {wrong : Prop} (quiet : h.Quiet k) (decides : k.Decides wrong l) : h.Decides wrong l := by
  intro closed
  obtain ⟨closedStill, agreeStill⟩ := quiet.decides closed
  exact ⟨(decides closedStill).1, fun agree => (decides closedStill).2 ((agreeStill agree).mpr not_false)⟩

/-- One instance develops, and its collections gain what is added. -/
theorem accounts_modify (h : Heap) (r : Ref) {change : Instance → Instance} (new : Nat → Ref → Prop)
    (developed : (h.get r).Develops (change (h.get r)))
    (listed : ∀ n item, item ∈ ((change (h.get r)).stateAt n).items ↔ item ∈ ((h.get r).stateAt n).items ∨ new n item)
    (held : ∀ n item, new n item → h.Holds r ∧ h.Holds item) :
    h.Accounts (fun owner index item => owner = r ∧ new index item) (h.modify r change) := by
  refine ⟨Nat.le_of_eq (size_modify h r change).symm, fun s _ => ?_, fun owner index item => ?_, ?_⟩
  · exact get_modify_related Instance.Develops.refl h r developed s
  · by_cases same : owner = r
    · subst same
      by_cases there : h.Holds owner
      · rw [Lists, get_modify_self there, listed, Lists]
        simp only [true_and]
      · have nothing : ¬new index item := fun added => there (held index item added).1
        rw [Lists, Lists, get_of_not_holds there, get_of_not_holds (mt holds_modify.mp there)]
        simp only [nothing, and_false, or_false]
    · rw [Lists, Lists, get_modify_of_ne same]
      simp only [same, false_and, or_false]
  · exact fun owner index item added => holds_modify.mpr (held index item added.2).2

theorem quiet_modify (h : Heap) (r : Ref) {change : Instance → Instance}
    (developed : (h.get r).Develops (change (h.get r)))
    (same : ∀ n, ((change (h.get r)).stateAt n).items = ((h.get r).stateAt n).items) : h.Quiet (h.modify r change) :=
  (accounts_modify h r (fun _ _ => False) developed (fun n item => by rw [same, or_false])
    fun _ _ none => none.elim).congr fun _ _ _ => ⟨fun both => both.2, fun none => none.elim⟩

theorem quiet_of_states (h : Heap) (r : Ref) {change : Instance → Instance}
    (entity : (change (h.get r)).entity = (h.get r).entity) (states : (change (h.get r)).states = (h.get r).states) :
    h.Quiet (h.modify r change) :=
  quiet_modify h r (.of_states entity states) fun n => by rw [Instance.stateAt, states, Instance.stateAt]

/-- An association may be loaded with anything but instances of a collection. -/
theorem quiet_fill (h : Heap) (r : Ref) (n : Nat) {state : AssociationState} (empty : state.items = []) :
    h.Quiet (h.modify r (·.fill n state)) := by
  refine quiet_modify h r (Instance.develops_fill _ n state) fun m => ?_
  by_cases kept : m = n → ((h.get r).stateAt m).isLoaded = true
  · rw [Instance.stateAt_fill kept]
  · obtain ⟨rfl, deferred⟩ := Classical.not_imp.mp kept
    rw [Instance.stateAt_fill_self (Bool.not_eq_true _ ▸ deferred), empty]
    cases now : (h.get r).stateAt m with
    | deferred key => rfl
    | one target => exact absurd (by rw [now]; rfl) deferred
    | many items => exact absurd (by rw [now]; rfl) deferred

theorem accounts_fill {r : Ref} {n : Nat} (deferred : ((h.get r).stateAt n).isLoaded = false) {items : List Ref}
    (held : ∀ item ∈ items, h.Holds item) :
    h.Accounts (fun owner index item => owner = r ∧ index = n ∧ item ∈ items)
      (h.modify r (·.fill n (.many items))) := by
  refine accounts_modify h r _ (Instance.develops_fill _ n _) (fun m item => ?_)
    fun _ item new => ⟨holds_of_deferred deferred, held item new.2⟩
  by_cases same : m = n
  · subst same
    rw [Instance.stateAt_fill_self deferred]
    cases now : (h.get r).stateAt m with
    | deferred key => simp [AssociationState.items]
    | one target => simp [now, AssociationState.isLoaded] at deferred
    | many others => simp [now, AssociationState.isLoaded] at deferred
  · rw [Instance.stateAt_fill fun equal => absurd equal same]
    simp only [same, false_and, or_false]

theorem accounts_addItem {r item : Ref} {n : Nat} {items : List Ref} (collects : (h.get r).stateAt n = .many items)
    (held : h.Holds item) :
    h.Accounts (fun owner index other => owner = r ∧ index = n ∧ other = item)
      (h.modify r (·.addItem n item)) := by
  have there : h.Holds r := by
    by_contra free
    rw [get_of_not_holds free] at collects
    cases collects
  refine accounts_modify h r _ (Instance.develops_addItem _ n item) (fun m other => ?_)
    fun _ other new => ⟨there, new.2 ▸ held⟩
  by_cases same : m = n
  · subst same
    rw [Instance.stateAt_addItem_self collects, collects]
    by_cases already : item ∈ items
    · simp only [AssociationState.items, already, if_true, true_and]
      exact ⟨.inl, fun either => either.elim id fun equal => equal ▸ already⟩
    · simp [AssociationState.items, already]
  · rw [Instance.stateAt_addItem same]
    simp only [same, false_and, or_false]

/-- A new instance has nothing in its collections, and is in none. -/
theorem quiet_allocate (h : Heap) {i : Instance} (empty : ∀ n, (i.stateAt n).items = []) :
    h.Quiet (h.allocate i).2 := by
  refine ⟨by simp, fun r held => by rw [get_allocate held]; exact .refl _, fun owner index item => ?_,
    fun _ _ _ none => none.elim⟩
  rw [or_false]
  by_cases held : h.Holds owner
  · rw [Lists, get_allocate held, Lists]
  · have blank : ¬h.Lists owner index item := fun lists => held lists.holds
    refine iff_of_false (fun lists => ?_) blank
    by_cases own : owner = (h.allocate i).1
    · rw [Lists, own, get_allocated, empty] at lists
      exact absurd lists List.not_mem_nil
    · have inside := lists.holds
      have different : owner.index ≠ h.instances.size := fun same => own (by cases owner; exact congrArg Ref.mk same)
      simp only [Holds, size_allocate] at held inside
      omega

end Heap

namespace Instance

variable {i j : Instance} {owning : Association} {n : Nat}

theorem inverseIndex?_congr (entity : j.entity = i.entity) (owning : Association) :
    j.inverseIndex? owning = i.inverseIndex? owning := by
  rw [inverseIndex?, entity, inverseIndex?]

/-- The inverse side is an association of this instance that is mapped by the owning one. -/
theorem mapped_of_inverseIndex? (found : i.inverseIndex? owning = some n) :
    ∃ a, i.entity.associations[n]? = some a ∧ a.mappedBy = some owning.name := by
  obtain ⟨inside, mapped, _⟩ := List.findIdx?_eq_some_iff_getElem.mp found
  simp only [Bool.and_eq_true, beq_iff_eq] at mapped
  exact ⟨_, List.getElem?_eq_getElem inside, mapped.1⟩

/-- The association at a place is an owning one. -/
def OwnsAt (i : Instance) (n : Nat) : Prop := ∃ a, i.entity.associations[n]? = some a ∧ a.isOwning = true

theorem OwnsAt.ne_inverse (owns : i.OwnsAt n) (owning : Association) : i.inverseIndex? owning ≠ some n := by
  intro found
  obtain ⟨a, declared, inverse⟩ := mapped_of_inverseIndex? found
  obtain ⟨b, same, owned⟩ := owns
  cases declared.symm.trans same
  rw [Association.isOwning, inverse] at owned
  cases owned

theorem stateAt_link_of_ne (apart : i.inverseIndex? owning ≠ some n) (owner : Ref) :
    (i.link owning owner).stateAt n = i.stateAt n := by
  unfold link
  split
  case h_1 => rfl
  case h_2 index found =>
    have different : n ≠ index := fun same => apart (same ▸ found)
    split
    · exact stateAt_addItem different
    · rw [stateAt_withState, if_neg fun both => different both.1]
    · rfl

theorem stateAt_unlink_of_ne (apart : i.inverseIndex? owning ≠ some n) (owner : Ref) :
    (i.unlink owning owner).stateAt n = i.stateAt n := by
  unfold unlink
  split
  case h_1 => rfl
  case h_2 index found =>
    have different : n ≠ index := fun same => apart (same ▸ found)
    split
    · rw [stateAt_withState, if_neg fun both => different both.1]
    · split
      · rw [stateAt_withState, if_neg fun both => different both.1]
      · rfl
    · rfl

theorem mem_of_mem_withState {state : AssociationState} {index : Nat} {item : Ref}
    (member : item ∈ ((i.withState index state).stateAt n).items) :
    item ∈ (i.stateAt n).items ∨ n = index ∧ item ∈ state.items := by
  rw [stateAt_withState] at member
  split at member
  case isTrue own => exact .inr ⟨own.1, member⟩
  case isFalse => exact .inl member

/-- A link adds the owner to one collection, and nothing else to any. -/
theorem mem_of_mem_link {owner item : Ref} (member : item ∈ ((i.link owning owner).stateAt n).items) :
    item ∈ (i.stateAt n).items ∨ item = owner ∧ i.inverseIndex? owning = some n := by
  unfold link at member
  split at member
  case h_1 => exact .inl member
  case h_2 index found =>
    split at member
    case h_1 items collects =>
      unfold addItem at member
      rw [collects] at member
      dsimp only at member
      split at member
      · exact .inl member
      · rcases mem_of_mem_withState member with old | ⟨rfl, added⟩
        · exact .inl old
        · rcases List.mem_append.mp added with old | new
          · exact .inl (by rw [collects]; exact old)
          · exact .inr ⟨List.mem_singleton.mp new, found⟩
    case h_2 target =>
      exact (mem_of_mem_withState member).elim .inl fun added => absurd added.2 List.not_mem_nil
    case h_3 => exact .inl member

/-- What is unlinked is in the inverse collection no more. -/
theorem mem_of_mem_unlink {owner item : Ref} (member : item ∈ ((i.unlink owning owner).stateAt n).items) :
    item ∈ (i.stateAt n).items ∧ ¬(item = owner ∧ i.inverseIndex? owning = some n) := by
  by_cases apart : i.inverseIndex? owning ≠ some n
  · rw [stateAt_unlink_of_ne apart] at member
    exact ⟨member, fun both => apart both.2⟩
  · have found := not_not.mp apart
    unfold unlink at member
    rw [found] at member
    dsimp only at member
    split at member
    case h_1 items collects =>
      rw [stateAt_withState, if_pos ⟨rfl, inside_of_many collects⟩] at member
      obtain ⟨old, other⟩ := List.mem_filter.mp member
      exact ⟨by rw [collects]; exact old, fun both => by simp [both.1] at other⟩
    case h_2 current refers =>
      -- A reference holds no items, before and after.
      have none : item ∉ (i.stateAt n).items := by
        rw [refers]
        exact List.not_mem_nil
      split at member
      · exact ((mem_of_mem_withState member).elim none fun added => List.not_mem_nil added.2).elim
      · exact absurd member none
    case h_3 key deferred =>
      rw [deferred] at member
      exact absurd member List.not_mem_nil

end Instance

/-- An instance has a state for each association of its entity. -/
def Instance.Shaped (i : Instance) : Prop := i.states.length = i.entity.associations.length

namespace Instance

theorem length_statesOf {e : Entity} {id : Value} {columns : List Value} {associations : List Association}
    {states : List AssociationState} (run : Hydration.statesOf e id columns associations = .ok states) :
    states.length = associations.length := by
  induction associations generalizing states with
  | nil =>
    cases run
    rfl
  | cons a rest ih =>
    obtain ⟨_, _, run⟩ := Except.bind_eq_ok.mp run
    obtain ⟨others, later, run⟩ := Except.bind_eq_ok.mp run
    cases run
    rw [List.length_cons, ih later, List.length_cons]

theorem states_of_set {i j : Instance} {field : String} {value : Value} (run : i.set field value = .ok j) :
    j.entity = i.entity ∧ j.states = i.states := by
  obtain ⟨index, _, run⟩ := Except.bind_eq_ok.mp run
  obtain ⟨_, _, run⟩ := Except.bind_eq_ok.mp run
  obtain ⟨coerced, _, run⟩ := Except.bind_eq_ok.mp run
  split at run
  · cases run
  · split at run
    · cases run
      exact ⟨rfl, rfl⟩
    · cases run
      exact ⟨(alike_touch _ _).entity, states_touch _ _⟩

/-- A property of the associations of an instance lasts if loading one does not take it away. -/
theorem Lasting.of_states {P : Instance → Prop}
    (congr : ∀ i j : Instance, j.entity = i.entity → j.states = i.states → P i → P j) (blank : P default)
    (new : ∀ e, P (.new e))
    (read : ∀ e id columns i, e.primaryKey.type.coerce (columns.getD e.key .null) = .ok id → id.isNull = false →
      Hydration.instanceOf e id columns = .ok i → P i)
    (state : ∀ i index state, state.isLoaded = true → P i → P (i.withState index state)) : Lasting P where
  blank := blank
  new := new
  read := read
  state := state
  clean i managed := congr i _ rfl rfl
  keyed i j key run := by
    obtain ⟨_, _, run⟩ := Except.bind_eq_ok.mp run
    cases run
    exact congr i _ rfl rfl
  set i j field value run := by
    obtain ⟨entity, states⟩ := states_of_set run
    exact congr i j entity states
  touch i a _ _ := congr i _ (alike_touch _ _).entity (states_touch _ _)

theorem lasting_shaped : Lasting Shaped := by
  refine .of_states (fun i j entity states shaped => ?_) rfl (fun e => List.length_map _) ?_ ?_
  · rw [Shaped, entity, states, shaped]
  · intro e id columns i _ _ run
    obtain ⟨values, _, run⟩ := Except.bind_eq_ok.mp run
    obtain ⟨states, read, run⟩ := Except.bind_eq_ok.mp run
    cases run
    exact length_statesOf read
  · exact fun i index state _ shaped => List.length_set.trans shaped

end Instance

theorem Entity.name_of_associationIndex {e : Entity} {name : String} {index : Nat} {a : Association}
    (found : e.associationIndex name = .ok index) (declared : e.associations[index]? = some a) : a.name = name := by
  obtain ⟨inside, same, _⟩ := List.findIdx?_eq_some_iff_getElem.mp (Entity.associationIndex_eq_ok.mp found)
  rw [List.getElem?_eq_getElem inside] at declared
  cases declared
  exact beq_iff_eq.mp same

theorem Entity.Faces.owns {e f : Entity} {i : Instance} {index place : Nat} (faces : e.Faces index f place)
    (entity : i.entity = f) : i.OwnsAt place := by
  obtain ⟨_, _, b, _, _, _, declared, owns⟩ := faces
  exact ⟨b, entity ▸ declared, owns⟩

namespace Heap

section Followed

variable (h : Heap) (r : Ref) (owning : Association) (old target : Option Ref)

theorem alike_followed (s : Ref) : (h.get s).Alike ((h.followed r owning old target).get s) :=
  followed_related Instance.Alike.refl (fun _ _ _ => Instance.Alike.trans) Instance.alike_link Instance.alike_unlink
    h r owning old target s

theorem stateAt_followed_of_ne {s : Ref} {n : Nat} (apart : (h.get s).inverseIndex? owning ≠ some n) :
    ((h.followed r owning old target).get s).stateAt n = (h.get s).stateAt n := by
  have first : ((old.elim h fun o => h.modify o (·.unlink owning r)).get s).stateAt n = (h.get s).stateAt n := by
    cases old with
    | none => rfl
    | some o =>
      exact get_modify_related (R := fun i j => i.inverseIndex? owning ≠ some n → j.stateAt n = i.stateAt n)
        (fun _ _ => rfl) h o (fun apart => Instance.stateAt_unlink_of_ne apart r) s apart
  unfold followed
  cases target with
  | none => exact first
  | some t =>
    have entity := (h.alike_followed r owning old none s).entity
    refine Eq.trans ?_ first
    exact get_modify_related (R := fun i j => i.inverseIndex? owning ≠ some n → j.stateAt n = i.stateAt n)
      (fun _ _ => rfl) _ t (fun apart => Instance.stateAt_link_of_ne apart r) s
      (Instance.inverseIndex?_congr entity owning ▸ apart)

/-- What a collection holds after the inverse sides have followed: what it held, without the instance where it was
unlinked, and the instance where it was linked. -/
theorem lists_followed {owner item : Ref} {n : Nat} (lists : (h.followed r owning old target).Lists owner n item) :
    h.Lists owner n item ∧ ¬(old = some owner ∧ item = r ∧ (h.get owner).inverseIndex? owning = some n) ∨
      target = some owner ∧ item = r ∧ (h.get owner).inverseIndex? owning = some n := by
  have unlinked (lists : (old.elim h fun o => h.modify o (·.unlink owning r)).Lists owner n item) :
      h.Lists owner n item ∧ ¬(old = some owner ∧ item = r ∧ (h.get owner).inverseIndex? owning = some n) := by
    cases old with
    | none => exact ⟨lists, fun both => by cases both.1⟩
    | some o =>
      by_cases own : owner = o
      · subst own
        have there := holds_modify.mp (Lists.holds lists)
        rw [Lists, Option.elim_some, get_modify_self there] at lists
        obtain ⟨before, apart⟩ := Instance.mem_of_mem_unlink lists
        exact ⟨before, fun both => apart both.2⟩
      · rw [Lists, Option.elim_some, get_modify_of_ne own] at lists
        exact ⟨lists, fun both => own (Option.some.inj both.1).symm⟩
  unfold followed at lists
  cases target with
  | none => exact .inl (unlinked lists)
  | some t =>
    rw [Option.elim_some] at lists
    by_cases own : owner = t
    · subst own
      have there := holds_modify.mp (Lists.holds lists)
      rw [Lists, get_modify_self there] at lists
      rcases Instance.mem_of_mem_link lists with before | ⟨new, found⟩
      · exact .inl (unlinked before)
      · have entity := (h.alike_followed r owning old none owner).entity
        exact .inr ⟨rfl, new, (Instance.inverseIndex?_congr entity owning).symm.trans found⟩
    · rw [Lists, get_modify_of_ne own] at lists
      exact .inl (unlinked lists)

end Followed

/-- An instance is pointed away from a target that has it in a collection which does not follow: the target's first
inverse of the association is another one. -/
inductive Overlooks (h : Heap) (r : Ref) (association : String) (target : Option Ref) : Prop
  | left {k : Heap} {index place : Nat} {owning : Association} {old : Ref}
      (succeeds : h.setReference r association target = .ok k)
      (found : (h.get r).entity.associationIndex association = .ok index)
      (declared : (h.get r).entity.associations[index]? = some owning)
      (refers : (h.get r).stateAt index = .one (some old)) (elsewhere : target ≠ some old)
      (lists : h.Lists old place r) (faces : (h.get old).entity.Faces place (h.get r).entity index)
      (skipped : (h.get old).inverseIndex? owning ≠ some place)

section Pointed

variable {h : Heap} {r : Ref} {index : Nat} {owning : Association} {target : Option Ref}

theorem alike_pointed (s : Ref) : (h.get s).Alike ((h.pointed r index owning target).get s) :=
  get_modify_related Instance.Alike.refl h r ((Instance.alike_touch _ _).trans (Instance.alike_withState _ _ _)) s

theorem stateAt_pointed_self (held : h.Holds r) (shaped : (h.get r).Shaped)
    (declared : (h.get r).entity.associations[index]? = some owning) :
    ((h.pointed r index owning target).get r).stateAt index = .one target := by
  have inside : index < ((h.get r).touch owning.ownerColumn).states.length := by
    rw [Instance.states_touch, shaped]
    exact (List.getElem?_eq_some_iff.mp declared).1
  rw [pointed, get_modify_self held, Instance.stateAt_withState, if_pos ⟨rfl, inside⟩]

theorem stateAt_pointed_of_ne {s : Ref} {n : Nat} (other : s = r → n ≠ index) :
    ((h.pointed r index owning target).get s).stateAt n = (h.get s).stateAt n := by
  by_cases own : s = r
  · subst own
    refine get_modify_related (R := fun i j => i = h.get s → j.stateAt n = i.stateAt n) (fun _ _ => rfl) h s ?_ s rfl
    intro _
    rw [Instance.stateAt_withState, if_neg fun both => other rfl both.1, Instance.stateAt, Instance.states_touch,
      Instance.stateAt]
  · rw [pointed, get_modify_of_ne own]

theorem lists_of_lists_pointed {owner item : Ref} {n : Nat}
    (lists : (h.pointed r index owning target).Lists owner n item) : h.Lists owner n item := by
  by_cases own : owner = r
  · subst own
    have there := holds_modify.mp (Lists.holds lists)
    rw [Lists, pointed, get_modify_self there] at lists
    rcases Instance.mem_of_mem_withState lists with before | ⟨_, none⟩
    · rw [Instance.stateAt, Instance.states_touch] at before
      exact before
    · exact absurd none List.not_mem_nil
  · rw [Lists, pointed, get_modify_of_ne own] at lists
    exact lists

end Pointed

variable {h k : Heap} {r : Ref} {association : String} {target : Option Ref}

theorem holds_of_associationIndex {name : String} {index : Nat}
    (found : (h.get r).entity.associationIndex name = .ok index) : h.Holds r := by
  by_contra free
  rw [get_of_not_holds free] at found
  cases found

theorem setReference_closed (run : h.setReference r association target = .ok k) (closed : h.Closed) : k.Closed := by
  have kept := setReference_keeps run
  obtain ⟨index, owning, found, _, _, rfl⟩ := setReference_run run
  intro owner n item lists
  rcases lists_followed _ r owning _ target lists with ⟨before, _⟩ | ⟨_, rfl, _⟩
  · exact kept.holds (closed owner n item (lists_of_lists_pointed before))
  · exact kept.holds (holds_of_associationIndex found)

/-- Pointing an association elsewhere keeps both sides together unless a collection of the old target is overlooked. -/
theorem setReference_decides (shaped : h.Every Instance.Shaped) (run : h.setReference r association target = .ok k) :
    h.Decides (h.Overlooks r association target) k := by
  refine fun closed => ⟨setReference_closed run closed, fun agree => ?_⟩
  obtain ⟨index, owning, found, declared, owns, rfl⟩ := setReference_run run
  have set : ((h.pointed r index owning target).get r).stateAt index = .one target :=
    stateAt_pointed_self (holds_of_associationIndex found) (shaped r) declared
  have entity (s : Ref) : (((h.pointed r index owning target).followed r owning ((h.get r).stateAt index).target?
      target).get s).entity = (h.get s).entity :=
    ((alike_pointed s).trans (alike_followed _ r owning _ target s)).entity
  have kept {s : Ref} {n : Nat} (apart : (h.get s).inverseIndex? owning ≠ some n) :
      (((h.pointed r index owning target).followed r owning ((h.get r).stateAt index).target? target).get s).stateAt n =
        ((h.pointed r index owning target).get s).stateAt n :=
    stateAt_followed_of_ne _ r owning _ target
      (by rw [Instance.inverseIndex?_congr (alike_pointed s).entity]; exact apart)
  have atIndex := (kept (Instance.OwnsAt.ne_inverse ⟨owning, declared, owns⟩ owning)).trans set
  constructor
  · intro both overlooked
    obtain @⟨_, _, place, _, old, _, found', declared', refers, elsewhere, lists, faces, skipped⟩ := overlooked
    cases found.symm.trans found'
    cases declared.symm.trans declared'
    have still : ((h.pointed r index owning target).followed r owning ((h.get r).stateAt index).target? target).Lists
        old place r := by
      rw [Lists, kept skipped, stateAt_pointed_of_ne fun own => faces.ne (by rw [own])]
      exact lists
    have leads := both old place r index still (by rw [entity, entity]; exact faces)
    rw [atIndex] at leads
    exact elsewhere (AssociationState.one.inj leads)
  · intro followed owner n item place lists faces
    rw [entity, entity] at faces
    have ownsPlace : (h.get item).OwnsAt place := faces.owns rfl
    rw [kept (ownsPlace.ne_inverse owning)]
    rcases lists_followed _ r owning _ target lists with ⟨before, linked⟩ | ⟨linked, rfl, inverse⟩
    · have listed := lists_of_lists_pointed before
      have leads := agree owner n item place listed faces
      by_cases other : item = r → place ≠ index
      · rw [stateAt_pointed_of_ne other]
        exact leads
      · obtain ⟨rfl, same⟩ := Classical.not_imp.mp other
        cases not_not.mp same
        rw [set]
        by_contra elsewhere
        refine followed (.left run found declared leads (fun same => elsewhere (same ▸ rfl)) listed faces ?_)
        intro inverse
        rw [← Instance.inverseIndex?_congr (alike_pointed owner).entity owning] at inverse
        exact linked ⟨by rw [leads]; rfl, rfl, inverse⟩
    · rw [Instance.inverseIndex?_congr (alike_pointed owner).entity owning] at inverse
      obtain ⟨a, atN, mapped⟩ := Instance.mapped_of_inverseIndex? inverse
      obtain ⟨a', mappedBy, _, atN', mapped', back, _⟩ := faces
      cases atN.symm.trans atN'
      cases mapped.symm.trans mapped'
      rw [Entity.name_of_associationIndex found declared] at back
      cases found.symm.trans back
      rw [set, linked]

end Heap

end EntityMapper
