import EntityMapper.Compile.Query
import EntityMapper.Query.Builder
import EntityMapper.Proofs.Session.RowCalls

namespace EntityMapper

namespace Instance

theorem stateAt_fill {i : Instance} {index other : Nat} {state : AssociationState}
    (kept : other = index → (i.stateAt other).isLoaded = true) :
    (i.fill index state).stateAt other = i.stateAt other := by
  unfold fill
  split
  case isTrue => rfl
  case isFalse deferred =>
    rw [stateAt_withState, if_neg]
    rintro ⟨rfl, _⟩
    exact deferred (kept rfl)

theorem stateAt_addItem {i : Instance} {index other : Nat} {item : Ref} (different : other ≠ index) :
    (i.addItem index item).stateAt other = i.stateAt other := by
  unfold addItem
  split
  · split
    · rfl
    · rw [stateAt_withState, if_neg fun same => different same.1]
  · rfl

theorem isLoaded_fill (i : Instance) (index : Nat) {state : AssociationState} (loaded : state.isLoaded = true) :
    ((i.fill index state).stateAt index).isLoaded = true := by
  unfold fill
  split
  case isTrue already => exact already
  case isFalse deferred =>
    have inside := inside_of_deferred (Bool.eq_false_iff.mpr deferred)
    rw [stateAt_withState, if_pos ⟨rfl, inside⟩]
    exact loaded

theorem Grown.eq_of_stateAt {i j : Instance} (grown : i.Grown j) (same : ∀ n, j.stateAt n = i.stateAt n) : j = i := by
  have states : j.states = i.states := by
    refine List.ext_getElem grown.length fun n inside before => ?_
    have atPlace := same n
    simp only [stateAt, List.getD_eq_getElem?_getD, List.getElem?_eq_getElem inside, List.getElem?_eq_getElem before,
      Option.getD_some] at atPlace
    exact atPlace
  cases i
  cases j
  simp only [Instance.mk.injEq]
  exact ⟨grown.entity, grown.values, states, grown.managed, grown.dirty⟩

end Instance

namespace Hydration

/-- The state of an association of an instance. -/
def slot (h : Hydration) (r : Ref) (index : Nat) : AssociationState := (h.heap.get r).stateAt index

def change (h : Hydration) (r : Ref) (f : Instance → Instance) : Hydration := { h with heap := h.heap.modify r f }

/-- Whether attaching a fetched instance to its owner loads an association that was deferred: the owner's, or the one
of the fetched instance that points back. A collection that was loaded before is left alone, and so is its item. -/
inductive Loads (h : Hydration) (owner : Ref) (a : Association) (target : Option Ref) : Ref → Nat → Prop
  | own {index : Nat} (found : (h.heap.get owner).entity.associationIndex a.name = .ok index)
      (deferred : (h.slot owner index).isLoaded = false) : Loads h owner a target owner index
  | back {index back : Nat} {t : Ref} {mappedBy : String}
      (found : (h.heap.get owner).entity.associationIndex a.name = .ok index)
      (adds : a.cardinality = .one ∨ (owner, index) ∈ h.started ∨ (h.slot owner index).isLoaded = false)
      (fetched : target = some t) (inverse : a.mappedBy = some mappedBy)
      (points : (h.heap.get t).entity.associationIndex mappedBy = .ok back)
      (deferred : (h.slot t back).isLoaded = false) : Loads h owner a target t back

theorem Loads.deferred {h : Hydration} {owner r : Ref} {a : Association} {target : Option Ref} {i : Nat}
    (loads : h.Loads owner a target r i) : (h.slot r i).isLoaded = false := by
  cases loads with
  | own _ deferred => exact deferred
  | back _ _ _ _ _ deferred => exact deferred

/-- An association of an instance keeps its state and is not started. -/
structure Spares (r : Ref) (i : Nat) (h k : Hydration) : Prop where
  slot : k.slot r i = h.slot r i
  started : (r, i) ∈ k.started → (r, i) ∈ h.started
  entity : (k.heap.get r).entity = (h.heap.get r).entity

theorem Spares.refl (r : Ref) (i : Nat) (h : Hydration) : Spares r i h h := ⟨rfl, id, rfl⟩

theorem Spares.trans {r : Ref} {i : Nat} {h k l : Hydration} (first : Spares r i h k) (second : Spares r i k l) :
    Spares r i h l :=
  ⟨second.slot.trans first.slot, first.started ∘ second.started, second.entity.trans first.entity⟩

theorem alike_change (h : Hydration) (r : Ref) {f : Instance → Instance} (alike : ∀ i, Instance.Alike i (f i))
    (s : Ref) : (h.heap.get s).Alike ((h.change r f).heap.get s) :=
  Heap.get_modify_related Instance.Alike.refl h.heap r (alike _) s

theorem spares_change {r owner : Ref} {i : Nat} (h : Hydration) {f : Instance → Instance}
    (alike : ∀ j, Instance.Alike j (f j))
    (same : r = owner → (f (h.heap.get r)).stateAt i = (h.heap.get r).stateAt i) : Spares r i h (h.change owner f) := by
  refine ⟨?_, id, (h.alike_change owner alike r).entity⟩
  by_cases own : r = owner
  · subst own
    exact Heap.get_modify_related (R := fun j k => j = h.heap.get r → k.stateAt i = j.stateAt i) (fun _ _ => rfl)
      h.heap r (fun _ => same rfl) r rfl
  · unfold slot change
    rw [Heap.get_modify_of_ne own]

theorem spares_fill {r owner : Ref} {i index : Nat} (h : Hydration) (state : AssociationState)
    (kept : r = owner → i = index → (h.slot r i).isLoaded = true) :
    Spares r i h (h.change owner (·.fill index state)) :=
  spares_change h (fun j => j.alike_fill index state) fun own => Instance.stateAt_fill (kept own)

theorem leaves_pointBack {h : Hydration} {a : Association} {t : Ref} {mappedBy : String} {back : Nat}
    (inverse : a.mappedBy = some mappedBy) (points : (h.heap.get t).entity.associationIndex mappedBy = .ok back)
    (owner : Ref) : leaves (pointBack owner a (some t)) h = h.change t (·.fill back (.one (some owner))) := by
  unfold pointBack
  rw [inverse]
  simp only [leaves, bind_run, get_run, points, check, pure, EStateM.pure]
  rfl

theorem pointBack_cases (owner : Ref) (a : Association) (target : Option Ref) (h : Hydration) :
    leaves (pointBack owner a target) h = h ∨ ∃ t mappedBy back, target = some t ∧ a.mappedBy = some mappedBy ∧
      (h.heap.get t).entity.associationIndex mappedBy = .ok back := by
  unfold pointBack
  split
  case h_1 t mappedBy inverse =>
    cases points : (h.heap.get t).entity.associationIndex mappedBy with
    | error e =>
      left
      simp only [leaves, bind_run, get_run, points, check]
      rfl
    | ok back => exact .inr ⟨t, mappedBy, back, rfl, inverse, points⟩
  case h_2 => exact .inl rfl

theorem startCollection_run (owner : Ref) (index : Nat) (h : Hydration) :
    startCollection owner index h =
      if (owner, index) ∈ h.started then .ok true h
      else if (h.slot owner index).isLoaded then .ok false h
      else .ok true ({ h with started := (owner, index) :: h.started }.change owner (·.fill index (.many []))) := by
  unfold startCollection
  rw [bind_run, get_run]
  simp only [List.contains_iff_mem, slot]
  by_cases began : (owner, index) ∈ h.started
  · rw [if_pos began]
    exact (if_pos began).symm
  · rw [if_neg began]
    refine Eq.trans ?_ (if_neg began).symm
    by_cases loaded : ((h.heap.get owner).stateAt index).isLoaded = true
    · rw [if_pos loaded]
      exact (if_pos loaded).symm
    · rw [if_neg loaded]
      exact (if_neg loaded).symm

/-- A collection that this execution fills: it has started it before, or starts it now. -/
def opened (h : Hydration) (owner : Ref) (index : Nat) : Hydration :=
  if (owner, index) ∈ h.started then h
  else { h with started := (owner, index) :: h.started }.change owner (·.fill index (.many []))

/-- A collection with the fetched instance, if there is one, as its last item. -/
def collected (h : Hydration) (owner : Ref) (index : Nat) (target : Option Ref) : Hydration :=
  target.elim h fun item => h.change owner (·.addItem index item)

theorem leaves_collect (h : Hydration) (owner : Ref) (index : Nat) (a : Association) (target : Option Ref) :
    leaves (do
      target.forM fun item => modifyInstance owner (·.addItem index item)
      pointBack owner a target) h = leaves (pointBack owner a target) (h.collected owner index target) := by
  cases target with
  | none => rfl
  | some item => rfl

theorem spares_collected {r owner : Ref} {i index : Nat} (apart : r = owner → i ≠ index) (h : Hydration)
    (target : Option Ref) : Spares r i h (h.collected owner index target) := by
  cases target with
  | none => exact .refl r i h
  | some item =>
    exact spares_change h (fun j => j.alike_addItem index item) fun own => Instance.stateAt_addItem (apart own)

theorem alike_opened (h : Hydration) (owner : Ref) (index : Nat) (s : Ref) :
    (h.heap.get s).Alike ((h.opened owner index).heap.get s) := by
  unfold opened
  split
  · exact .refl _
  · exact alike_change { h with started := (owner, index) :: h.started } owner (fun j => j.alike_fill index _) s

theorem alike_filled (h : Hydration) (owner : Ref) (index : Nat) (target : Option Ref) (s : Ref) :
    (h.heap.get s).Alike (((h.opened owner index).collected owner index target).heap.get s) := by
  cases target with
  | none => exact h.alike_opened owner index s
  | some item =>
    exact (h.alike_opened owner index s).trans (alike_change _ owner (fun j => j.alike_addItem index item) s)

/-- A collection that was loaded before this execution is left alone; any other one is filled. -/
theorem not_alone_iff {h : Hydration} {owner : Ref} {index : Nat} :
    ¬((owner, index) ∉ h.started ∧ (h.slot owner index).isLoaded = true) ↔
      (owner, index) ∈ h.started ∨ (h.slot owner index).isLoaded = false := by
  rw [not_and_or, not_not, Bool.not_eq_true]

/-- Nothing is attached through an association that the owner's entity does not have. -/
theorem attach_undeclared {h : Hydration} {owner : Ref} {a : Association} {e : Error}
    (missing : (h.heap.get owner).entity.associationIndex a.name = .error e) (target : Option Ref) :
    attach owner a target h = .error e h := by
  unfold attach
  rw [bind_run, get_run]
  dsimp only
  rw [missing]
  rfl

/-- What attaching does once the association is found. -/
theorem leaves_attach {h : Hydration} {owner : Ref} {a : Association} {index : Nat}
    (found : (h.heap.get owner).entity.associationIndex a.name = .ok index) (target : Option Ref) :
    leaves (attach owner a target) h =
      match a.cardinality with
      | .one => leaves (pointBack owner a target) (h.change owner (·.fill index (.one target)))
      | .many =>
        if (owner, index) ∉ h.started ∧ (h.slot owner index).isLoaded = true then h
        else leaves (pointBack owner a target) ((h.opened owner index).collected owner index target) := by
  unfold attach
  change leaves (do
    let index ← check ((h.heap.get owner).entity.associationIndex a.name)
    match a.cardinality with
    | .one => do
      modifyInstance owner (·.fill index (.one target))
      pointBack owner a target
    | .many => do
      let started ← startCollection owner index
      if started then do
        target.forM fun item => modifyInstance owner (·.addItem index item)
        pointBack owner a target
      else pure ()) h = _
  rw [found]
  simp only [check, pure_bind]
  cases a.cardinality with
  | one => rfl
  | many =>
    have start := startCollection_run owner index h
    by_cases began : (owner, index) ∈ h.started
    · rw [if_pos began] at start
      rw [leaves_bind_of_ok start, if_pos rfl, leaves_collect]
      simp only [opened, began, not_true_eq_false, false_and, if_false, if_true]
    · rw [if_neg began] at start
      by_cases loaded : (h.slot owner index).isLoaded = true
      · rw [if_pos loaded] at start
        rw [leaves_bind_of_ok start, if_neg Bool.false_ne_true]
        simp only [began, loaded, not_false_eq_true, and_self, if_true]
        rfl
      · rw [if_neg loaded] at start
        rw [leaves_bind_of_ok start, if_pos rfl, leaves_collect]
        simp only [opened, began, loaded, not_false_eq_true, true_and, Bool.false_eq_true, if_false]

/-- Only what attaching loads changes, unless the association is a collection that is being filled. -/
theorem spares_attach {h : Hydration} {owner r : Ref} {a : Association} {target : Option Ref} {i : Nat}
    (unstarted : (r, i) ∉ h.started) (idle : ¬h.Loads owner a target r i) :
    Spares r i h (leaves (attach owner a target) h) := by
  cases found : (h.heap.get owner).entity.associationIndex a.name with
  | error e =>
    rw [leaves_of_error (attach_undeclared found target)]
    exact .refl r i h
  | ok index =>
    -- What comes before the way back spares the association; the way back then cannot load it either.
    have around (k : Hydration) (spared : Spares r i h k)
        (adds : a.cardinality = .one ∨ (owner, index) ∈ h.started ∨ (h.slot owner index).isLoaded = false) :
        Spares r i h (leaves (pointBack owner a target) k) := by
      rcases pointBack_cases owner a target k with same | ⟨t, mappedBy, back, fetched, inverse, points⟩
      · rw [same]
        exact spared
      · rw [fetched, leaves_pointBack inverse points]
        refine spared.trans (spares_fill k _ ?_)
        rintro rfl rfl
        rw [spared.entity] at points
        rw [spared.slot]
        by_contra deferred
        exact idle (.back found adds fetched inverse points (by simpa using deferred))
    have kept : r = owner → i = index → (h.slot r i).isLoaded = true := by
      rintro rfl rfl
      by_contra deferred
      exact idle (.own found (by simpa using deferred))
    rw [leaves_attach found]
    cases cardinality : a.cardinality with
    | one => exact around _ (spares_fill h _ kept) (.inl cardinality)
    | many =>
      dsimp only
      split
      case isTrue => exact .refl r i h
      case isFalse adds =>
        unfold opened
        by_cases began : (owner, index) ∈ h.started
        · rw [if_pos began]
          refine around _ (spares_collected ?_ h target) (.inr (.inl began))
          rintro rfl rfl
          exact unstarted began
        · have deferred := (not_alone_iff.mp adds).resolve_left began
          have apart : r = owner → i ≠ index := by
            rintro rfl rfl
            exact idle (.own found deferred)
          have start : Spares r i h { h with started := (owner, index) :: h.started } := by
            refine ⟨rfl, fun member => ?_, rfl⟩
            rcases List.mem_cons.mp member with same | old
            · cases same
              exact absurd rfl (apart rfl)
            · exact old
          rw [if_neg began]
          have filled := start.trans (spares_fill _ (.many []) kept)
          exact around _ (filled.trans (spares_collected apart _ target)) (.inr (.inr deferred))

theorem Extends.loaded {h k : Hydration} (extended : h.Extends k) {r : Ref} {i : Nat} (held : h.heap.Holds r)
    (loaded : (h.slot r i).isLoaded = true) : (k.slot r i).isLoaded = true :=
  (extended.grown r held).loaded loaded

theorem extends_change (h : Hydration) (r : Ref) {f : Instance → Instance} (grown : ∀ i, Instance.Grown i (f i)) :
    h.Extends (h.change r f) :=
  respects_modifyInstance r grown h

theorem extends_collected (h : Hydration) (owner : Ref) (index : Nat) (target : Option Ref) :
    h.Extends (h.collected owner index target) := by
  cases target with
  | none => exact refl_of Extends h
  | some item => exact extends_change h owner fun j => j.grown_addItem index item

theorem holds_change (h : Hydration) (r : Ref) (f : Instance → Instance) {s : Ref} (held : h.heap.Holds s) :
    (h.change r f).heap.Holds s :=
  Heap.holds_modify.mpr held

theorem loaded_fill (h : Hydration) (r : Ref) (index : Nat) {state : AssociationState}
    (loaded : state.isLoaded = true) : ((h.change r (·.fill index state)).slot r index).isLoaded = true := by
  by_cases held : h.heap.Holds r
  · rw [slot, change, Heap.get_modify_self held]
    exact Instance.isLoaded_fill _ index loaded
  · rw [slot, change, Heap.get_of_not_holds (mt Heap.holds_modify.mp held)]
    rfl

/-- What attaching loads is loaded then. -/
theorem loaded_attach {h : Hydration} {owner r : Ref} {a : Association} {target : Option Ref} {i : Nat}
    (unstarted : (r, i) ∉ h.started) (loads : h.Loads owner a target r i) :
    ((leaves (attach owner a target) h).slot r i).isLoaded = true := by
  have held : h.heap.Holds r := Heap.holds_of_deferred loads.deferred
  cases loads with
  | own found deferred =>
    rw [leaves_attach found]
    cases a.cardinality with
    | one =>
      refine (respects_pointBack owner a target _).loaded ?_ (loaded_fill h owner i rfl)
      exact Heap.holds_modify.mpr held
    | many =>
      dsimp only
      rw [if_neg (not_alone_iff.mpr (.inr deferred)), opened, if_neg unstarted]
      have filled := loaded_fill { h with started := (owner, i) :: h.started } owner i
        (rfl : (AssociationState.many []).isLoaded = true)
      have heldStill := holds_change { h with started := (owner, i) :: h.started } owner (·.fill i (.many [])) held
      generalize Hydration.change _ owner (·.fill i (.many [])) = begun at filled heldStill ⊢
      have added := extends_collected begun owner i target
      exact (respects_pointBack owner a target _).loaded (added.keeps.holds heldStill) (added.loaded heldStill filled)
  | @back index _ _ mappedBy found adds fetched inverse points deferred =>
    subst fetched
    have pointed (k : Hydration) (alike : ∀ s, (h.heap.get s).Alike (k.heap.get s)) :
        ((leaves (pointBack owner a (some r)) k).slot r i).isLoaded = true := by
      rw [← (alike r).entity] at points
      rw [leaves_pointBack inverse points]
      exact loaded_fill k r i rfl
    rw [leaves_attach found]
    cases cardinality : a.cardinality with
    | one => exact pointed _ (alike_change h owner fun j => j.alike_fill index _)
    | many =>
      have fills := adds.resolve_left fun one => by cases cardinality.symm.trans one
      dsimp only
      rw [if_neg (not_alone_iff.mpr fills)]
      exact pointed _ (alike_filled h owner index (some r))

/-- One of the calls loads an association that was deferred. -/
def LoadsIn (calls : Calls) (r : Ref) (i : Nat) : Prop :=
  ∃ owner a target call, calls owner a target call ∧ call.Loads owner a target r i

/-- Rows load an association that was deferred. -/
def LoadsInRows (layout : Layout) (rows : List (List Value)) (h : Hydration) (r : Ref) (i : Nat) : Prop :=
  ∃ owner a target call, Attaches layout rows h owner a target call ∧ call.Loads owner a target r i

/-- Either an association is spared, or something loads it that was deferred, and it is loaded from then on. -/
inductive Outcome (loads : Prop) (r : Ref) (i : Nat) (h k : Hydration) : Prop
  | spared (never : ¬loads) (spares : Spares r i h k)
  | loaded (does : loads) (deferred : (h.slot r i).isLoaded = false) (now : (k.slot r i).isLoaded = true)

variable {r : Ref} {i : Nat} {h k l : Hydration}

/-- One outcome after another. Loaded associations stay loaded, so what follows the loading of one is of no matter. -/
theorem Outcome.seq {first next : Prop} (start : Outcome first r i h k) (held : k.heap.Holds r) (extended : k.Extends l)
    (rest : Spares r i h k → Outcome next r i k l) : Outcome (first ∨ next) r i h l := by
  cases start with
  | loaded does deferred now => exact .loaded (.inl does) deferred (extended.loaded held now)
  | spared never spares =>
    cases rest spares with
    | spared neither still => exact .spared (not_or.mpr ⟨never, neither⟩) (spares.trans still)
    | loaded does deferred now => exact .loaded (.inr does) (spares.slot ▸ deferred) now

theorem Outcome.congr {first next : Prop} (outcome : Outcome first r i h k) (same : first ↔ next) :
    Outcome next r i h k := by
  cases outcome with
  | spared never spares => exact .spared (mt same.mpr never) spares
  | loaded does deferred now => exact .loaded (same.mp does) deferred now

theorem spares_entity (e : Entity) (columns : List Value) (held : h.heap.Holds r) :
    Spares r i h (leaves (entity e columns) h) := by
  have step := entity_step e columns h
  unfold leaves
  cases run : entity e columns h with
  | error error k =>
    rw [run] at step
    cases step
    exact .refl r i h
  | ok found k =>
    rw [run] at step
    cases step with
    | absent => exact .refl r i h
    | known => exact .refl r i h
    | fresh =>
      have same := Heap.get_allocate held
      exact ⟨congrArg (·.stateAt i) (same _), id, congrArg (·.entity) (same _)⟩

theorem not_loadsIn_none : ¬LoadsIn .none r i := by
  rintro ⟨_, _, _, _, none, _⟩
  exact none

theorem loadsIn_or {first next : Calls} : LoadsIn (first.or next) r i ↔ LoadsIn first r i ∨ LoadsIn next r i := by
  constructor
  · rintro ⟨owner, a, target, call, early | late, loads⟩
    · exact .inl ⟨owner, a, target, call, early, loads⟩
    · exact .inr ⟨owner, a, target, call, late, loads⟩
  · rintro (⟨owner, a, target, call, early, loads⟩ | ⟨owner, a, target, call, late, loads⟩)
    · exact ⟨owner, a, target, call, .inl early, loads⟩
    · exact ⟨owner, a, target, call, .inr late, loads⟩

theorem loadsIn_oneCall {owner : Ref} {a : Association} {target : Option Ref} :
    LoadsIn (oneCall owner a target h) r i ↔ h.Loads owner a target r i := by
  constructor
  · rintro ⟨_, _, _, _, ⟨rfl, rfl, rfl, rfl⟩, loads⟩
    exact loads
  · exact fun loads => ⟨owner, a, target, h, ⟨rfl, rfl, rfl, rfl⟩, loads⟩

/-- What becomes of an association of an instance that is there follows the calls, as long as it is no collection that
is being filled. -/
theorem accumulates_outcome (r : Ref) (i : Nat) : Accumulates fun h calls k =>
    h.Extends k ∧ (h.heap.Holds r → (r, i) ∉ h.started → Outcome (LoadsIn calls r i) r i h k) where
  still h := ⟨refl_of Extends h, fun _ _ => .spared not_loadsIn_none (.refl r i h)⟩
  join first next := by
    refine ⟨trans_of Extends first.1 next.1, fun held unstarted => ?_⟩
    have heldStill := first.1.keeps.holds held
    have both := (first.2 held unstarted).seq heldStill next.1 fun spares =>
      next.2 heldStill (mt spares.started unstarted)
    exact both.congr loadsIn_or.symm
  read e columns h := by
    refine ⟨respects_entity e columns h, fun held _ => ?_⟩
    exact .spared not_loadsIn_none (spares_entity e columns held)
  attached e columns before owner a target h _ := by
    refine ⟨respects_attach owner a target h, fun _ unstarted => ?_⟩
    by_cases loads : h.Loads owner a target r i
    · exact .loaded (loadsIn_oneCall.mpr loads) loads.deferred (loaded_attach unstarted loads)
    · exact .spared (mt loadsIn_oneCall.mp loads) (spares_attach unstarted loads)

theorem outcome_recordsOf (layout : Layout) (rows : List (List Value)) (held : h.heap.Holds r)
    (unstarted : (r, i) ∉ h.started) :
    Outcome (LoadsInRows layout rows h r i) r i h (leaves (recordsOf layout rows) h) :=
  (accumulates_recordsOf (accumulates_outcome r i) layout rows h).2 held unstarted

/-- Nothing of a failing materialization is left in the identity map or in the instances that it registers. -/
def AllOrNothing (layout : Layout) (rows : List (List Value)) (heap : Heap) (identity : IdentityMap) : Prop :=
  ∀ e k, records layout rows ⟨heap, identity, [], []⟩ = .error e k →
    k.identity = identity ∧ ∀ r ∈ identity.refs, k.heap.get r = heap.get r

/-- What a failed materialization leaves of a registered instance: an association differs where it was loaded. -/
theorem registered_of_failed {layout : Layout} {rows : List (List Value)} {heap : Heap} {identity : IdentityMap}
    (held : ∀ r ∈ identity.refs, heap.Holds r) {e : Error} {k : Hydration}
    (failed : records layout rows ⟨heap, identity, [], []⟩ = .error e k) :
    k.identity = identity ∧ ∀ r ∈ identity.refs, (heap.get r).Grown (k.heap.get r) ∧
      ∀ i, (k.heap.get r).stateAt i = (heap.get r).stateAt i ↔
        ¬LoadsInRows layout rows ⟨heap, identity, [], []⟩ r i := by
  have stopped := records_error (staged_nil heap identity []) failed
  have extended := respects_recordsOf layout rows ⟨heap, identity, [], []⟩
  rw [leaves_of_error stopped] at extended
  refine ⟨extended.identity, fun r member => ⟨extended.grown r (held r member), fun i => ?_⟩⟩
  have outcome := outcome_recordsOf (r := r) (i := i) layout rows (h := ⟨heap, identity, [], []⟩) (held r member)
    List.not_mem_nil
  rw [leaves_of_error stopped] at outcome
  cases outcome with
  | spared never spares => exact iff_of_true spares.slot never
  | loaded does deferred now =>
    refine iff_of_false (fun same => ?_) (not_not_intro does)
    change ((k.heap.get r).stateAt i).isLoaded = true at now
    rw [same] at now
    exact Bool.false_ne_true (deferred.symm.trans now)

/-- Materialization is all or nothing exactly when it succeeds, or when nothing that it gets to loads a deferred
association of a registered instance. A failing one always leaves the identity map alone, and of registered instances
everything apart from the associations that are loaded. -/
theorem allOrNothing_iff {layout : Layout} {rows : List (List Value)} {heap : Heap} {identity : IdentityMap}
    (held : ∀ r ∈ identity.refs, heap.Holds r) :
    (AllOrNothing layout rows heap identity ↔
      (∃ found k, records layout rows ⟨heap, identity, [], []⟩ = .ok found k) ∨
        ∀ r ∈ identity.refs, ∀ i, ¬LoadsInRows layout rows ⟨heap, identity, [], []⟩ r i) ∧
      ∀ e k, records layout rows ⟨heap, identity, [], []⟩ = .error e k → k.identity = identity ∧
        ∀ r ∈ identity.refs, (heap.get r).Alike (k.heap.get r) ∧ (k.heap.get r).dirty = (heap.get r).dirty ∧
          ∀ i, (k.heap.get r).stateAt i = (heap.get r).stateAt i ↔
            ¬LoadsInRows layout rows ⟨heap, identity, [], []⟩ r i := by
  refine ⟨⟨fun whole => ?_, ?_⟩, fun e k failed => ?_⟩
  · cases run : records layout rows ⟨heap, identity, [], []⟩ with
    | ok found k => exact .inl ⟨found, k, rfl⟩
    | error e k =>
      refine .inr fun r member i => ?_
      rw [← ((registered_of_failed held run).2 r member).2 i, (whole e k run).2 r member]
  · rintro (⟨found, k, succeeded⟩ | spared) e k' failed
    · cases succeeded.symm.trans failed
    · obtain ⟨same, instances⟩ := registered_of_failed held failed
      refine ⟨same, fun r member => ?_⟩
      obtain ⟨grown, states⟩ := instances r member
      exact grown.eq_of_stateAt fun i => (states i).mpr (spared r member i)
  · obtain ⟨same, instances⟩ := registered_of_failed held failed
    exact ⟨same, fun r member => ⟨(instances r member).1.toAlike, (instances r member).1.dirty, (instances r member).2⟩⟩

/-- Teams and the players that refer to them. -/
def membersAssociation : Association :=
  ⟨"members", "team", "player", "players", .many, "id", "team_id", some "team", .integer⟩

def teamEntity : Entity := ⟨"team", "teams", [⟨"id", "id", .integer⟩], ⟨0, by decide⟩, [membersAssociation]⟩

def playerEntity : Entity :=
  ⟨"player", "players", [⟨"id", "id", .integer⟩], ⟨0, by decide⟩,
    [⟨"team", "player", "team", "teams", .one, "team_id", "id", none, .integer⟩]⟩

def rosterLayout : Layout :=
  .ofProjections [.entity ⟨"team", teamEntity⟩] [⟨"team", membersAssociation, ⟨"player", playerEntity⟩⟩]

/-- One registered team whose players are not loaded. -/
def rosterHeap : Heap := ⟨#[⟨teamEntity, [.int 1], [.deferred (.int 1)], true, []⟩]⟩

def rosterIdentity : IdentityMap := ⟨[(⟨"team", .int 1⟩, ⟨0⟩)]⟩

/-- A row with a player, and one that ends too early. -/
def rosterRows : List (List Value) := [[.int 1, .int 10, .int 1], [.int 1]]

theorem allOrNothing_iff_roster : AllOrNothing rosterLayout rosterRows rosterHeap rosterIdentity ↔
    (∃ found k, records rosterLayout rosterRows ⟨rosterHeap, rosterIdentity, [], []⟩ = .ok found k) ∨
      ∀ r ∈ rosterIdentity.refs, ∀ i, ¬LoadsInRows rosterLayout rosterRows ⟨rosterHeap, rosterIdentity, [], []⟩ r i :=
  (allOrNothing_iff fun _ member => by cases List.mem_singleton.mp member; exact Nat.zero_lt_one).1

/-- The team keeps a player whom no identity map knows. -/
theorem partly_materialized_roster :
    (compile ⟨[teamEntity, playerEntity]⟩ .postgres
      { (Plan.ofEntity ⟨"team", teamEntity⟩) with
        joins := [⟨.left, ⟨"player", playerEntity⟩,
          some ⟨⟨"team", teamEntity⟩, [], membersAssociation, playerEntity⟩, none, true⟩] }).map (·.layout) =
      .ok rosterLayout ∧ ¬AllOrNothing rosterLayout rosterRows rosterHeap rosterIdentity := by
  refine ⟨rfl, fun whole => ?_⟩
  have same := (whole _ _ rfl).2 ⟨0⟩ List.mem_cons_self
  have state : AssociationState.many [⟨1⟩] = .deferred (.int 1) := congrArg (·.stateAt 0) same
  cases state

end Hydration

end EntityMapper
