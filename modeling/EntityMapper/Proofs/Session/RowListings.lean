import EntityMapper.Proofs.Session.Listings

namespace EntityMapper

theorem Instance.items_new (e : Entity) (n : Nat) : ((new e).stateAt n).items = [] := by
  simp only [stateAt, new, List.getD_eq_getElem?_getD, List.getElem?_map]
  cases e.associations[n]? with
  | none => rfl
  | some a =>
    simp only [Option.map_some, Option.getD_some]
    split <;> rfl

namespace Hydration

theorem items_statesOf {e : Entity} {id : Value} {columns : List Value} {associations : List Association}
    {states : List AssociationState} (run : statesOf e id columns associations = .ok states) :
    ∀ state ∈ states, state.items = [] := by
  induction associations generalizing states with
  | nil =>
    cases run
    exact fun _ member => absurd member List.not_mem_nil
  | cons a rest ih =>
    obtain ⟨first, read, run⟩ := Except.bind_eq_ok.mp run
    obtain ⟨others, later, run⟩ := Except.bind_eq_ok.mp run
    cases run
    intro state member
    rcases List.mem_cons.mp member with rfl | other
    · unfold stateOf at read
      split at read
      · cases read
        rfl
      · obtain ⟨key, _, read⟩ := Except.bind_eq_ok.mp read
        cases read
        split <;> rfl
    · exact ih later state other

/-- The instance of a row has nothing in its collections yet. -/
theorem items_instanceOf {e : Entity} {id : Value} {columns : List Value} {i : Instance}
    (run : instanceOf e id columns = .ok i) (n : Nat) : (i.stateAt n).items = [] := by
  obtain ⟨values, _, run⟩ := Except.bind_eq_ok.mp run
  obtain ⟨states, read, run⟩ := Except.bind_eq_ok.mp run
  cases run
  rw [Instance.stateAt, List.getD_eq_getElem?_getD]
  cases at_ : states[n]? with
  | none => rfl
  | some state => exact items_statesOf read state (List.mem_of_getElem? at_)

/-- No collection gains anything, and none is started. -/
def Quiet (h k : Hydration) : Prop := h.heap.Quiet k.heap ∧ k.started = h.started

instance : IsPreorder Hydration Quiet where
  refl _ := ⟨.refl _, rfl⟩
  trans _ _ _ first second := ⟨trans_of Heap.Quiet first.1 second.1, second.2.trans first.2⟩

theorem quiet_entity (e : Entity) (columns : List Value) : Respects Quiet (entity e columns) :=
  respects_entity_of e columns fun _ _ _ _ _ read h => ⟨h.heap.quiet_allocate (items_instanceOf read), rfl⟩

theorem quiet_fill (h : Hydration) (r : Ref) (n : Nat) {state : AssociationState} (empty : state.items = []) :
    h.Quiet (h.change r (·.fill n state)) := ⟨h.heap.quiet_fill r n empty, rfl⟩

theorem quiet_pointBack (owner : Ref) (a : Association) (target : Option Ref) :
    Respects Quiet (pointBack owner a target) := by
  intro h
  rcases pointBack_cases owner a target h with same | ⟨t, mappedBy, back, fetched, inverse, points⟩
  · rw [same]
    exact refl_of Quiet h
  · rw [fetched, leaves_pointBack inverse points]
    exact h.quiet_fill t back rfl

/-- The collections that an execution has started are loaded. -/
def Begun (h : Hydration) : Prop := ∀ owner n, (owner, n) ∈ h.started → ∃ items, h.slot owner n = .many items

theorem Begun.of_accounts {h k : Hydration} {added : Ref → Nat → Ref → Prop} (begun : h.Begun)
    (accounts : h.heap.Accounts added k.heap) (started : k.started = h.started) : k.Begun := by
  intro owner n member
  obtain ⟨items, collects⟩ := begun owner n (started ▸ member)
  have held : h.heap.Holds owner := by
    by_contra free
    rw [slot, Heap.get_of_not_holds free] at collects
    cases collects
  exact (accounts.developed owner held).collection n items collects

/-- A call of `attach` adds to a collection of the owner: to one that this execution has started, or that is not loaded
and is started now. -/
structure Adds (call : Hydration) (owner : Ref) (a : Association) (n : Nat) : Prop where
  found : (call.heap.get owner).entity.associationIndex a.name = .ok n
  many : a.cardinality = .many
  starts : (owner, n) ∈ call.started ∨ (call.slot owner n).isLoaded = false

variable {h k call : Hydration} {owner item : Ref} {a : Association} {n place : Nat}

theorem quiet_opened (h : Hydration) (owner : Ref) (n : Nat) : h.heap.Quiet (h.opened owner n).heap := by
  unfold opened
  split
  · exact .refl _
  · exact h.heap.quiet_fill owner n rfl

theorem slot_opened (begun : h.Begun) (starts : (owner, n) ∈ h.started ∨ (h.slot owner n).isLoaded = false) :
    ∃ items, (h.opened owner n).slot owner n = .many items := by
  unfold opened
  split
  case isTrue began => exact begun owner n began
  case isFalse fresh =>
    have deferred := starts.resolve_left fresh
    refine ⟨[], ?_⟩
    rw [slot, change, Heap.get_modify_self (Heap.holds_of_deferred deferred)]
    exact Instance.stateAt_fill_self deferred _

theorem slot_opened_of_ne {r : Ref} {i : Nat} (apart : r = owner → i ≠ n) (h : Hydration) :
    (h.opened owner n).slot r i = h.slot r i := by
  unfold opened
  split
  · rfl
  · exact (spares_fill { h with started := (owner, n) :: h.started } (.many [])
      fun own same => absurd same (apart own)).slot

theorem Begun.opened (begun : h.Begun) (starts : (owner, n) ∈ h.started ∨ (h.slot owner n).isLoaded = false) :
    (h.opened owner n).Begun := by
  intro other m member
  by_cases own : (other, m) = (owner, n)
  · cases own
    exact slot_opened begun starts
  · have before : (other, m) ∈ h.started := by
      unfold Hydration.opened at member
      split at member
      · exact member
      · exact (List.mem_cons.mp member).resolve_left own
    obtain ⟨items, collects⟩ := begun other m before
    exact ⟨items, (slot_opened_of_ne (fun same at_ => own (by rw [same, at_])) h).trans collects⟩

/-- A collection that is started, or has been, takes the instance. -/
theorem accounts_collected (begun : h.Begun) (starts : (owner, n) ∈ h.started ∨ (h.slot owner n).isLoaded = false)
    {target : Option Ref} (held : ∀ item ∈ target, h.heap.Holds item) :
    h.heap.Accounts (fun owner' m item => owner' = owner ∧ m = n ∧ target = some item)
        ((h.opened owner n).collected owner n target).heap ∧ ((h.opened owner n).collected owner n target).Begun := by
  have opened := h.quiet_opened owner n
  have begunStill := begun.opened starts
  cases target with
  | none => exact ⟨opened.congr fun _ _ _ => ⟨False.elim, fun added => by cases added.2.2⟩, begunStill⟩
  | some item =>
    obtain ⟨items, collects⟩ := slot_opened begun starts
    have added := Heap.accounts_addItem collects (Heap.Accounts.holds opened (held item rfl))
    refine ⟨(opened.accounts added).congr fun owner' m other => ?_, begunStill.of_accounts added rfl⟩
    rw [Option.some.injEq, @eq_comm _ item]

/-- What collections gain by a call of `attach`, and what it starts. -/
theorem accounts_attach (owner : Ref) (a : Association) {target : Option Ref} (begun : call.Begun)
    (held : ∀ item ∈ target, call.heap.Holds item) :
    call.heap.Accounts (fun owner' n item => owner' = owner ∧ call.Adds owner a n ∧ target = some item)
        (leaves (attach owner a target) call).heap ∧ (leaves (attach owner a target) call).Begun := by
  have idle (quiet : call.Quiet (leaves (attach owner a target) call)) (none : ∀ n, ¬call.Adds owner a n) :
      call.heap.Accounts (fun owner' n item => owner' = owner ∧ call.Adds owner a n ∧ target = some item)
        (leaves (attach owner a target) call).heap ∧ (leaves (attach owner a target) call).Begun :=
    ⟨Heap.Accounts.congr quiet.1 fun _ n _ => ⟨False.elim, fun added => none n added.2.1⟩,
      begun.of_accounts quiet.1 quiet.2⟩
  cases found : (call.heap.get owner).entity.associationIndex a.name with
  | error e =>
    refine idle (by rw [leaves_of_error (attach_undeclared found target)]; exact refl_of Quiet call) fun n adds => ?_
    cases found.symm.trans adds.found
  | ok index =>
    have left := leaves_attach found target
    cases cardinality : a.cardinality with
    | one =>
      rw [cardinality] at left
      refine idle ?_ fun n adds => by cases cardinality.symm.trans adds.many
      rw [left]
      exact trans_of Quiet (call.quiet_fill owner index rfl) (quiet_pointBack owner a target _)
    | many =>
      rw [cardinality] at left
      dsimp only at left
      by_cases alone : (owner, index) ∉ call.started ∧ (call.slot owner index).isLoaded = true
      · rw [if_pos alone] at left
        refine idle (by rw [left]; exact refl_of Quiet call) fun n adds => ?_
        cases found.symm.trans adds.found
        exact not_alone_iff.mpr adds.starts alone
      · have starts := not_alone_iff.mp alone
        have only {m : Nat} : call.Adds owner a m ↔ m = index := by
          refine ⟨fun other => ?_, fun same => same ▸ ⟨found, cardinality, starts⟩⟩
          cases found.symm.trans other.found
          rfl
        rw [if_neg alone] at left
        rw [left]
        obtain ⟨accounts, begunStill⟩ := accounts_collected begun starts held
        obtain ⟨pointed, started⟩ :=
          quiet_pointBack owner a target ((call.opened owner index).collected owner index target)
        refine ⟨(accounts.quiet pointed).congr fun _ _ _ => ?_, begunStill.of_accounts pointed started⟩
        rw [only]

/-- The added instance points back at the owner from then on, if it did not point anywhere. -/
theorem attach_answers (adds : call.Adds owner a n) {mappedBy : String} (inverse : a.mappedBy = some mappedBy)
    (back : (call.heap.get item).entity.associationIndex mappedBy = .ok place) (apart : item = owner → place ≠ n)
    (deferred : (call.slot item place).isLoaded = false) :
    (leaves (attach owner a (some item)) call).slot item place = .one (some owner) := by
  have same : ((call.opened owner n).collected owner n (some item)).slot item place = call.slot item place :=
    (spares_collected apart _ (some item)).slot.trans (slot_opened_of_ne apart call)
  have entity := (call.alike_filled owner n (some item) item).entity
  have points : (((call.opened owner n).collected owner n (some item)).heap.get item).entity.associationIndex mappedBy =
      .ok place := by
    rw [← back]
    exact congrArg (Entity.associationIndex · mappedBy) entity
  rw [leaves_attach adds.found, adds.many]
  dsimp only
  rw [if_neg (not_alone_iff.mpr adds.starts), leaves_pointBack inverse points]
  rw [← same] at deferred
  rw [slot, change, Heap.get_modify_self (Heap.holds_of_deferred deferred)]
  exact Instance.stateAt_fill_self deferred _

/-- What the calls add to collections. -/
def added (calls : Calls) (owner : Ref) (n : Nat) (item : Ref) : Prop :=
  ∃ a call, calls owner a (some item) call ∧ call.Adds owner a n

theorem added_none : added .none owner n item ↔ False :=
  ⟨fun added => added.choose_spec.choose_spec.1, False.elim⟩

theorem added_or {first next : Calls} :
    added (first.or next) owner n item ↔ added first owner n item ∨ added next owner n item := by
  constructor
  · rintro ⟨a, call, reached | reached, adds⟩
    · exact .inl ⟨a, call, reached, adds⟩
    · exact .inr ⟨a, call, reached, adds⟩
  · rintro (⟨a, call, reached, adds⟩ | ⟨a, call, reached, adds⟩)
    · exact ⟨a, call, .inl reached, adds⟩
    · exact ⟨a, call, .inr reached, adds⟩

/-- What is known of a call once all rows are read: its instance was there, and what it left has only developed. -/
structure Settled (call : Hydration) (owner : Ref) (a : Association) (item : Ref) (final : Hydration) : Prop where
  begun : call.Begun
  held : call.heap.Holds item
  stays : ∀ r, call.heap.Holds r → final.heap.Holds r
  developed : ∀ r, call.heap.Holds r →
    ((leaves (attach owner a (some item)) call).heap.get r).Develops (final.heap.get r)

theorem holds_of_entity {e : Entity} {columns : List Value} {before : Hydration}
    (read : entity e columns before = .ok (some item) h) (sound : h.Sound) : h.heap.Holds item := by
  have step := entity_step e columns before
  rw [read] at step
  cases step with
  | known _ found =>
    obtain ⟨key, _, keyed⟩ := sound.known found
    exact Heap.holds_of_key keyed
  | fresh => simp [Heap.Holds, Heap.allocate]

theorem accumulates_listings : Accumulates fun h calls k =>
    h.Extends k ∧ (h.Sound → h.Begun → k.Begun ∧ h.heap.Accounts (added calls) k.heap ∧
      ∀ owner a item call, calls owner a (some item) call → Settled call owner a item k) where
  still h := by
    refine ⟨refl_of Extends h, fun _ begun => ⟨begun, (Heap.Quiet.refl _).congr fun _ _ _ => ?_, ?_⟩⟩
    · exact added_none.symm
    · exact fun _ _ _ _ => False.elim
  join {h k l first next} early late := by
    refine ⟨trans_of Extends early.1 late.1, fun sound begun => ?_⟩
    obtain ⟨begunStill, accounts, settled⟩ := early.2 sound begun
    obtain ⟨begunAfter, others, settledLater⟩ := late.2 (sound.extends early.1) begunStill
    refine ⟨begunAfter, (accounts.trans others).congr fun owner n item => added_or.symm, ?_⟩
    · rintro owner a item call (reached | reached)
      · obtain ⟨begunThen, held, stays, developed⟩ := settled owner a item call reached
        refine ⟨begunThen, held, fun r there => others.holds (stays r there), fun r there => ?_⟩
        exact (developed r there).trans (others.developed r (stays r there))
      · exact settledLater owner a item call reached
  read e columns h := by
    have quiet := quiet_entity e columns h
    refine ⟨respects_entity e columns h, fun _ begun => ?_⟩
    refine ⟨begun.of_accounts quiet.1 quiet.2, Heap.Accounts.congr quiet.1 fun _ _ _ => ?_, ?_⟩
    · exact added_none.symm
    · exact fun _ _ _ _ => False.elim
  attached e columns before owner a target h read := by
    refine ⟨respects_attach owner a target h, fun sound begun => ?_⟩
    have held : ∀ item ∈ target, h.heap.Holds item := by
      rintro item rfl
      exact holds_of_entity read sound
    obtain ⟨accounts, begunStill⟩ := accounts_attach owner a begun held
    refine ⟨begunStill, accounts.congr fun owner' n item => ?_, ?_⟩
    · constructor
      · rintro ⟨rfl, adds, rfl⟩
        exact ⟨a, h, ⟨rfl, rfl, rfl, rfl⟩, adds⟩
      · rintro ⟨_, _, ⟨rfl, rfl, rfl, rfl⟩, adds⟩
        exact ⟨rfl, adds, rfl⟩
    · rintro _ _ item _ ⟨rfl, rfl, rfl, rfl⟩
      exact ⟨begun, held item rfl, fun r there => accounts.holds there, fun _ _ => .refl _⟩

/-- An instance is added to a collection although its own side of the association does not lead to the owner of the
collection: it is loaded already and leads elsewhere; or the association that is fetched is mapped by another one than
the collection is, and no row answers. -/
inductive Misplaces (call final : Hydration) (owner : Ref) (a : Association) (item : Ref) : Prop
  | elsewhere {n place : Nat} (adds : call.Adds owner a n)
      (faces : (call.heap.get owner).entity.Faces n (call.heap.get item).entity place)
      (loaded : (call.slot item place).isLoaded = true) (other : call.slot item place ≠ .one (some owner))
  | unanswered {n place : Nat} {collection : Association} (adds : call.Adds owner a n)
      (faces : (call.heap.get owner).entity.Faces n (call.heap.get item).entity place)
      (declared : (call.heap.get owner).entity.associations[n]? = some collection)
      (different : a.mappedBy ≠ collection.mappedBy) (left : final.slot item place ≠ .one (some owner))

/-- Rows misplace an instance. -/
def MisplacesInRows (layout : Layout) (rows : List (List Value)) (h : Hydration) : Prop :=
  ∃ owner a item call, Attaches layout rows h owner a (some item) call ∧
    call.Misplaces (leaves (recordsOf layout rows) h) owner a item

/-- Where an instance was added, its own side leads somewhere else in the end exactly if it was misplaced. -/
theorem misplaces_iff {final : Hydration} (settled : Settled call owner a item final)
    (developed : ∀ r, call.heap.Holds r → (call.heap.get r).Develops (final.heap.get r)) :
    call.Misplaces final owner a item ↔ ∃ n place, call.Adds owner a n ∧
      (final.heap.get owner).entity.Faces n (final.heap.get item).entity place ∧
        final.slot item place ≠ .one (some owner) := by
  have entities {n : Nat} (adds : call.Adds owner a n) :
      (final.heap.get owner).entity = (call.heap.get owner).entity ∧
        (final.heap.get item).entity = (call.heap.get item).entity :=
    ⟨(developed owner (Heap.holds_of_associationIndex adds.found)).entity, (developed item settled.held).entity⟩
  have leads {place : Nat} (loaded : (call.slot item place).isLoaded = true) :
      final.slot item place = .one (some owner) ↔ call.slot item place = .one (some owner) := by
    have own := developed item settled.held
    refine ⟨fun now => ?_, own.reference place _⟩
    cases before : call.slot item place with
    | deferred key =>
      rw [before] at loaded
      cases loaded
    | one target => exact (own.reference place target before).symm.trans now
    | many items =>
      obtain ⟨more, still⟩ := own.collection place items before
      cases still.symm.trans now
  constructor
  · intro misplaced
    cases misplaced with
    | elsewhere adds faces loaded other =>
      obtain ⟨atOwner, atItem⟩ := entities adds
      exact ⟨_, _, adds, by rw [atOwner, atItem]; exact faces, mt (leads loaded).mp other⟩
    | unanswered adds faces declared different left =>
      obtain ⟨atOwner, atItem⟩ := entities adds
      exact ⟨_, _, adds, by rw [atOwner, atItem]; exact faces, left⟩
  · rintro ⟨n, place, adds, faces, other⟩
    obtain ⟨atOwner, atItem⟩ := entities adds
    rw [atOwner, atItem] at faces
    by_cases loaded : (call.slot item place).isLoaded = true
    · exact .elsewhere adds faces loaded (mt (leads loaded).mpr other)
    · obtain ⟨collection, mappedBy, _, declared, mapped, back, _⟩ := id faces
      refine .unanswered adds faces declared (fun same => other ?_) other
      have answers := attach_answers adds (same.trans mapped) back
        (fun own at_ => faces.ne (by rw [own]) at_.symm) (by simpa using loaded)
      exact (settled.developed item settled.held).reference place _ answers

/-- After rows are read both sides of the associations still agree exactly when no instance was misplaced. -/
theorem decides_recordsOf (layout : Layout) (rows : List (List Value)) (sound : h.Sound) (begun : h.Begun) :
    h.heap.Decides (MisplacesInRows layout rows h) (leaves (recordsOf layout rows) h).heap := by
  obtain ⟨_, reached⟩ := accumulates_recordsOf accumulates_listings layout rows h
  obtain ⟨_, accounts, settled⟩ := reached sound begun
  have each {owner : Ref} {a : Association} {item : Ref} {call : Hydration}
      (reached : Attaches layout rows h owner a (some item) call) := by
    obtain ⟨begunThen, held, _, developed⟩ := id (settled owner a item call reached)
    have attached := accounts_attach owner a begunThen fun _ same => Option.some.inj same ▸ held
    exact misplaces_iff (settled owner a item call reached) fun r there =>
      (attached.1.developed r there).trans (developed r there)
  refine accounts.decides.congr ⟨?_, ?_⟩
  · rintro ⟨owner, n, item, place, ⟨a, call, reached, adds⟩, faces, other⟩
    exact ⟨owner, a, item, call, reached, (each reached).mpr ⟨n, place, adds, faces, other⟩⟩
  · rintro ⟨owner, a, item, call, reached, misplaced⟩
    obtain ⟨n, place, adds, faces, other⟩ := (each reached).mp misplaced
    exact ⟨owner, n, item, place, ⟨a, call, reached, adds⟩, faces, other⟩

end Hydration

end EntityMapper
