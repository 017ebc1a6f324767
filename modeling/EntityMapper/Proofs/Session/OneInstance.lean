import EntityMapper.Proofs.Session.Program

namespace EntityMapper

namespace Instance

/-- A field may be set as long as that leaves the key of a managed instance alone. -/
theorem key_of_set {i j : Instance} {field : String} {value : Value} (run : i.set field value = .ok j) :
    j.managed = i.managed ∧ (i.managed = true → j.key = i.key) := by
  obtain ⟨index, _, run⟩ := Except.bind_eq_ok.mp run
  obtain ⟨_, _, run⟩ := Except.bind_eq_ok.mp run
  obtain ⟨coerced, _, run⟩ := Except.bind_eq_ok.mp run
  split at run
  case isTrue => cases run
  case isFalse fixed =>
    split at run
    · cases run
      exact ⟨rfl, fun _ => rfl⟩
    · cases run
      have alike := alike_touch { i with values := i.values.set index coerced }
        (i.entity.fields.getD index default).column
      refine ⟨alike.managed, fun managed => alike.key.trans ?_⟩
      have other : index ≠ i.entity.key.val := by simpa [managed] using fixed
      simp only [Instance.key, Instance.id, valueAt, List.getD_eq_getElem?_getD, List.getElem?_set, if_neg other]

end Instance

namespace Heap

/-- Managed instances keep their keys and their standing. -/
def KeepsManaged (h k : Heap) : Prop :=
  ∀ r, (h.get r).managed = true → (k.get r).key = (h.get r).key ∧ (k.get r).managed = true

theorem Keeps.keepsManaged {h k : Heap} (kept : h.Keeps k) : h.KeepsManaged k := by
  intro r managed
  have alike := kept.alike r (h.holds_of_managed managed)
  exact ⟨alike.key, alike.managed.trans managed⟩

theorem set_keepsManaged {h k : Heap} {r : Ref} {field : String} {value : Value}
    (run : h.set r field value = .ok k) : h.KeepsManaged k := by
  obtain ⟨changed, set, run⟩ := Except.bind_eq_ok.mp run
  cases run
  obtain ⟨standing, key⟩ := Instance.key_of_set set
  have own : (h.get r).managed = true → changed.key = (h.get r).key ∧ changed.managed = true :=
    fun managed => ⟨key managed, standing.trans managed⟩
  exact get_modify_related (R := fun i j => i.managed = true → j.key = i.key ∧ j.managed = true)
    (fun _ managed => ⟨rfl, managed⟩) h r own

theorem set_typed {h k : Heap} {r : Ref} {field : String} {value : Value} (run : h.set r field value = .ok k)
    (typed : h.Typed) : k.Typed := by
  obtain ⟨changed, set, run⟩ := Except.bind_eq_ok.mp run
  cases run
  exact typed_modify typed r fun well => Instance.wellTyped_set set well

theorem setReference_keeps {h k : Heap} {r : Ref} {association : String} {target : Option Ref}
    (run : h.setReference r association target = .ok k) : h.Keeps k := by
  obtain ⟨index, _, run⟩ := Except.bind_eq_ok.mp run
  dsimp only at run
  split at run
  case isTrue => cases run
  case isFalse =>
    split at run
    case h_1 => cases run
    case h_2 =>
      generalize (h.get r).entity.associations.getD index default = owning at run
      have changed : h.Keeps (h.modify r fun i => (i.touch owning.ownerColumn).withState index (.one target)) :=
        h.keeps_modify r fun i => (i.alike_touch _).trans (Instance.alike_withState _ _ _)
      have unlinked (old : Ref) := changed.trans (keeps_modify _ old fun i => i.alike_unlink owning r)
      cases target with
      | none =>
        cases run
        split
        · exact unlinked _
        · exact changed
      | some t =>
        cases run
        refine Keeps.trans ?_ (keeps_modify _ t fun i => i.alike_link owning r)
        split
        · exact unlinked _
        · exact changed

theorem Edits.keepsManaged {h k : Heap} (edits : h.Edits k) : h.KeepsManaged k := by
  cases edits with
  | create e => exact (h.keeps_allocate (Instance.wellTyped_new e)).keepsManaged
  | set run => exact set_keepsManaged run
  | setReference run => exact (setReference_keeps run).keepsManaged

theorem Edits.typed {h k : Heap} (edits : h.Edits k) (typed : h.Typed) : k.Typed := by
  cases edits with
  | create e => exact (h.keeps_allocate (Instance.wellTyped_new e)).typed typed
  | set run => exact set_typed run typed
  | setReference run => exact (setReference_keeps run).typed typed

end Heap

namespace Program

/-- Instances are well typed, every open session has a valid identity map, and no instance is registered in two of
them. -/
structure Consistent (p : Program) : Prop where
  typed : p.heap.Typed
  valid : ∀ name s, p.sessions name = some s → s.identity.Keyed p.heap
  apart : ∀ name other s t, name ≠ other → p.sessions name = some s → p.sessions other = some t →
    ∀ r ∈ s.identity.refs, r ∉ t.identity.refs

theorem work_eq_some {p : Program} {name : String} {w : Work} :
    p.work name = some w ↔ ∃ s, p.sessions name = some s ∧ w = ⟨s, p.heap, p.store⟩ := by
  unfold work
  rw [Option.map_eq_some_iff]
  exact exists_congr fun s => and_congr_right fun _ => eq_comm

theorem work_resume (p : Program) (name : String) (w : Work) : (p.resume name w).work name = some w := by
  simp [work, resume]

theorem Consistent.work_valid {p : Program} (consistent : p.Consistent) {name : String} {w : Work}
    (opened : p.work name = some w) : w.Valid := by
  obtain ⟨s, found, rfl⟩ := work_eq_some.mp opened
  exact consistent.valid name s found

/-- Steps outside of any session's work leave managed instances their keys. -/
theorem Consistent.of_keepsManaged {p : Program} (consistent : p.Consistent) {heap : Heap} (store : Store)
    (kept : p.heap.KeepsManaged heap) (typed : p.heap.Typed → heap.Typed) :
    ({ p with heap, store } : Program).Consistent := by
  refine ⟨typed consistent.typed, fun name s found => ?_, consistent.apart⟩
  have valid := consistent.valid name s found
  refine valid.of_kept fun r member => ?_
  have managed := valid.managed r member
  exact ⟨(kept r managed).1, (kept r managed).2.trans managed.symm⟩

/-- The work of one session leaves the others consistent, whether the session goes on or is over. -/
theorem Consistent.of_continues {p : Program} (consistent : p.Consistent) {name : String} {w after : Work}
    (opened : p.work name = some w) (continued : w.Continues after) {next : Option Session}
    (goesOn : ∀ s ∈ next, s = after.toSession) (store : Store) :
    (⟨after.heap, store, Function.update p.sessions name next⟩ : Program).Consistent := by
  have valid := consistent.work_valid opened
  obtain ⟨s, found, rfl⟩ := work_eq_some.mp opened
  have outside : ∀ other t, other ≠ name → p.sessions other = some t → ∀ r ∈ t.identity.refs,
      (p.heap.get r).Alike (after.heap.get r) ∧ r ∉ after.identity.refs := by
    intro other t different atOther r member
    have unregistered := consistent.apart other name t s different atOther found r member
    exact continued.outside r ((consistent.valid other t atOther).managed r member) unregistered
  refine ⟨continued.typed consistent.typed, ?_, ?_⟩
  · intro other t atOther
    by_cases same : other = name
    · subst same
      simp only [Function.update_self] at atOther
      rw [goesOn t atOther]
      exact continued.keyed valid
    · simp only [Function.update_of_ne same] at atOther
      exact (consistent.valid other t atOther).of_alike fun r member => (outside other t same atOther r member).1
  · intro first second t u different atFirst atSecond r member shared
    by_cases same : first = name
    · subst same
      simp only [Function.update_self, Function.update_of_ne different.symm] at atFirst atSecond
      rw [goesOn t atFirst] at member
      exact (outside second u different.symm atSecond r shared).2 member
    · by_cases alsoSame : second = name
      · subst alsoSame
        simp only [Function.update_self, Function.update_of_ne same] at atFirst atSecond
        rw [goesOn u atSecond] at shared
        exact (outside first t same atFirst r member).2 shared
      · simp only [Function.update_of_ne same, Function.update_of_ne alsoSame] at atFirst atSecond
        exact consistent.apart first second t u different atFirst atSecond r member shared

end Program

open Work

/-- Only one request forgets instances; every other one keeps what is registered. -/
theorem Request.grows_perform {request : Request} (keeps : request ≠ .clear) : Respects Grows request.perform :=
  request.respects_perform Session.steps_grows fun clears => absurd clears keeps

namespace Program

theorem consistent_start (s : Store) : (start s).Consistent :=
  ⟨fun _ => Instance.wellTyped_default, fun _ _ found => (nomatch found), fun _ _ _ _ _ found => (nomatch found)⟩

theorem Consistent.begun {p : Program} (consistent : p.Consistent) (name : String) {s : Session} (store : Store)
    (fresh : s.identity = .empty) :
    ({ p with store, sessions := Function.update p.sessions name (some s) } : Program).Consistent := by
  refine ⟨consistent.typed, ?_, ?_⟩
  · intro other t found
    by_cases same : other = name
    · subst same
      simp only [Function.update_self] at found
      cases found
      rw [fresh]
      exact IdentityMap.keyed_empty _
    · simp only [Function.update_of_ne same] at found
      exact consistent.valid other t found
  · intro first second t u different atFirst atSecond r member shared
    by_cases same : first = name
    · subst same
      simp only [Function.update_self] at atFirst
      cases atFirst
      rw [fresh] at member
      exact absurd member List.not_mem_nil
    · by_cases alsoSame : second = name
      · subst alsoSame
        simp only [Function.update_self] at atSecond
        cases atSecond
        rw [fresh] at shared
        exact absurd shared List.not_mem_nil
      · simp only [Function.update_of_ne same, Function.update_of_ne alsoSame] at atFirst atSecond
        exact consistent.apart first second t u different atFirst atSecond r member shared

theorem Consistent.step {p : Program} (consistent : p.Consistent) (action : Action) :
    (p.step action).Consistent := by
  refine step_cases Session.steps_continues Session.continues_detachAll action (fun store => ?_) (fun heap edits => ?_)
    (fun name s store fresh => ?_) fun name w after next store opened continued goesOn => ?_
  · exact consistent.of_keepsManaged store (Heap.Keeps.refl _).keepsManaged id
  · exact consistent.of_keepsManaged p.store edits.keepsManaged edits.typed
  · exact consistent.begun name store fresh
  · exact consistent.of_continues opened continued goesOn store

theorem Reachable.consistent {p : Program} (reach : p.Reachable) : p.Consistent :=
  reach.induct consistent_start fun _ action consistent => consistent.step action

end Program

/-- The instances that a request hands out, or accepts to save, are the registered ones for their keys. -/
theorem Request.yields_perform (request : Request) :
    Yields Valid request.perform fun refs w => ∀ r ∈ refs, w.Registered r := by
  have nothing {α : Type} (m : SessionM α) :
      Yields Valid (do let _ ← m; pure []) fun refs w => ∀ r ∈ refs, w.Registered r :=
    .bind (.trivial m) fun _ => .pure fun w _ r member => absurd member List.not_mem_nil
  have optional {m : SessionM (Option Result)} (yields : Yields Valid m fun found w =>
      ∀ result ∈ found, ∀ r ∈ result.refs, w.Registered r) :
      Yields Valid (do let found ← m; pure (found.toList.flatMap Result.refs)) fun refs w =>
        ∀ r ∈ refs, w.Registered r := by
    refine .bind yields fun found => .pure fun w registered r member => ?_
    obtain ⟨result, present, mentioned⟩ := List.mem_flatMap.mp member
    exact registered result (Option.mem_toList.mp present) r mentioned
  cases request with
  | instantiate entity => exact nothing _
  | persist r =>
    refine .bind ((Session.yields_persist r).mono (fun _ _ => True.intro) fun _ _ => id) fun _ => .pure ?_
    intro w registered s member
    exact List.mem_singleton.mp member ▸ registered
  | find entity id =>
    exact .bind (Session.yields_find entity id) fun found => .pure fun w registered r member =>
      registered r (Option.mem_toList.mp member)
  | resolve r association => exact nothing _
  | fetch type p =>
    exact .bind (Session.yields_fetch (Session.faithful_decode type) p) fun _ => .pure fun _ => id
  | fetchOne type p => exact optional (Session.yields_fetchOne (Session.faithful_decode type) p)
  | fetchFirst type p => exact optional (Session.yields_fetchFirst (Session.faithful_decode type) p)
  | fetchPage type p =>
    exact .bind (Session.yields_fetchPage (Session.faithful_decode type) p) fun _ => .pure fun _ => id
  | fetchCount p => exact nothing _
  | flush => exact nothing _
  | clear => exact nothing _
  | execute statement => exact nothing _

/-- The steps that end what a session knows of its instances: it clears them, is over, or is begun anew. -/
def Action.forgets (name : String) : Action → Prop
  | .request other .clear => other = name
  | .begin other _ _ => other = name
  | .commit other => other = name
  | .rollback other => other = name
  | .drop other => other = name
  | _ => False

namespace Program

/-- The session is still open, and what it has registered is still registered. -/
def Remembers (name : String) (p after : Program) : Prop :=
  ∀ w, p.work name = some w → ∃ v, after.work name = some v ∧ ∃ more, v.identity.entries = w.identity.entries ++ more

theorem Remembers.trans {name : String} {p q after : Program} (first : Remembers name p q)
    (second : Remembers name q after) : Remembers name p after := by
  intro w opened
  obtain ⟨v, atMiddle, more, added⟩ := first w opened
  obtain ⟨u, atEnd, others, later⟩ := second v atMiddle
  exact ⟨u, atEnd, more ++ others, by rw [later, added, List.append_assoc]⟩

theorem Remembers.of_sessions {name : String} {p after : Program} (same : after.sessions name = p.sessions name) :
    Remembers name p after := by
  intro w opened
  obtain ⟨s, found, rfl⟩ := work_eq_some.mp opened
  exact ⟨⟨s, after.heap, after.store⟩, work_eq_some.mpr ⟨s, same.trans found, rfl⟩, [], by rw [List.append_nil]⟩

theorem remembers_close {p : Program} {name other : String} (different : other ≠ name)
    (left : Except Error Unit × Heap × Store) : Remembers name p (p.close other left) :=
  .of_sessions (Function.update_of_ne different.symm _ _)

theorem remembers_request (p : Program) (name other : String) {request : Request}
    (keeps : ¬(Action.request other request).forgets name) : Remembers name p (p.step (.request other request)) := by
  by_cases same : other = name
  · subst same
    intro w opened
    have keepsAll : request ≠ .clear := fun clears => keeps (by subst clears; rfl)
    refine ⟨leaves request.perform w, ?_, (Request.grows_perform keepsAll w).entries⟩
    simp only [Program.step, opened, Option.elim_some]
    exact work_resume p other _
  · refine elim_cases (P := Remembers name p) (.of_sessions rfl) fun w _ => ?_
    exact .of_sessions (Function.update_of_ne (Ne.symm same) _ _)

theorem remembers_step (p : Program) {name : String} {action : Action} (keeps : ¬action.forgets name) :
    Remembers name p (p.step action) := by
  have still : Remembers name p p := .of_sessions rfl
  cases action with
  | create e => exact .of_sessions rfl
  | set r field value => exact elim_cases still fun _ _ => .of_sessions rfl
  | setReference r association target => exact elim_cases still fun _ _ => .of_sessions rfl
  | answer replies => exact .of_sessions rfl
  | direct statement => exact .of_sessions rfl
  | «begin» other connection registry =>
    unfold Program.step
    dsimp only
    split
    · exact .of_sessions (Function.update_of_ne (Ne.symm keeps) _ _)
    · exact .of_sessions rfl
  | request other request => exact remembers_request p name other keeps
  | commit other => exact elim_cases still fun w _ => remembers_close keeps _
  | rollback other => exact elim_cases still fun w _ => remembers_close keeps _
  | drop other => exact elim_cases still fun w _ => remembers_close keeps _

theorem remembers_run (actions : List Action) (p : Program) {name : String}
    (keeps : ∀ action ∈ actions, ¬action.forgets name) : Remembers name p (p.run actions) := by
  induction actions generalizing p with
  | nil => exact .of_sessions rfl
  | cons action rest ih =>
    exact (remembers_step p (keeps action List.mem_cons_self)).trans
      (ih _ fun other member => keeps other (List.mem_cons_of_mem _ member))

/-- A session hands out an instance in answer to a request, or accepts to save it. -/
def Hands (p : Program) (name : String) (request : Request) (r : Ref) (after : Program) : Prop :=
  ∃ w refs v, p.work name = some w ∧ request.perform w = .ok refs v ∧ r ∈ refs ∧ after = p.resume name v

theorem Hands.step {p after : Program} {name : String} {request : Request} {r : Ref}
    (hands : p.Hands name request r after) : after = p.step (.request name request) := by
  obtain ⟨w, refs, v, opened, run, _, rfl⟩ := hands
  simp only [Program.step, opened, Option.elim_some, leaves_of_ok run]

theorem Consistent.handed {p after : Program} (consistent : p.Consistent) {name : String} {request : Request} {r : Ref}
    (hands : p.Hands name request r after) :
    ∃ v, after.work name = some v ∧ v.heap = after.heap ∧ v.Registered r := by
  obtain ⟨w, refs, v, opened, run, member, rfl⟩ := hands
  exact ⟨v, work_resume p name v, rfl,
    request.yields_perform w refs v (consistent.work_valid opened) run r member⟩

theorem Consistent.run {p : Program} (consistent : p.Consistent) (actions : List Action) :
    (p.run actions).Consistent := by
  induction actions generalizing p with
  | nil => exact consistent
  | cons action rest ih => exact ih (consistent.step action)

/-- Answering a request that hands out an instance forgets none. -/
theorem Hands.remembers {p after : Program} {name : String} {request : Request} {r : Ref}
    (hands : p.Hands name request r after) : Remembers name p after := by
  have step := hands.step
  obtain ⟨w, refs, v, opened, run, member, _⟩ := hands
  rw [step]
  refine remembers_request p name name fun forgets => ?_
  cases request with
  | clear =>
    cases run
    exact absurd member List.not_mem_nil
  | _ => exact forgets

end Program

theorem Work.registered_iff {w : Work} {r : Ref} :
    w.Registered r ↔ ∃ key, (w.heap.get r).key = .ok key ∧ w.identity.get? key = some r := by
  unfold Registered IdentityMap.contains
  cases keyed : (w.heap.get r).key with
  | error e => simp
  | ok key => simp

namespace Session

/-- A value of the key's type is the key that it is looked up by. -/
theorem keyOf_of_hasType {e : Entity} {id : Value} (typed : id.HasType e.primaryKey.type) (entity : String) :
    keyOf e entity id = .ok id := by
  unfold keyOf
  rw [checkTypes_of_hasType typed, Except.ok_bind]
  exact DataType.coerce_of_hasType typed

theorem find_again {w : Work} (valid : w.Valid) (typed : w.heap.Typed) {r : Ref} (member : r ∈ w.identity.refs)
    (described : w.registry.describe (w.heap.get r).entity.name = .ok (w.heap.get r).entity) :
    find (w.heap.get r).entity.name (w.heap.get r).id w = .ok (some r) w := by
  obtain ⟨⟨key, s⟩, entry, rfl⟩ := List.mem_map.mp member
  have own : (w.heap.get s).id.HasType (w.heap.get s).entity.primaryKey.type :=
    typed s _ _ (List.getElem?_eq_getElem (w.heap.get s).entity.key.isLt)
  exact find_registered described (keyOf_of_hasType own _) (valid.keyed key s entry) (valid.get?_of_mem entry)

/-- An owning association whose key is registered is loaded without a word to the store. -/
theorem resolve_registered {w : Work} {r : Ref} {association : String} {index : Nat} {a : Association} {id : Value}
    {t : Ref} (found : (w.heap.get r).entity.associationIndex association = .ok index)
    (declared : (w.heap.get r).entity.associations[index]? = some a) (owning : a.isOwning = true)
    (deferred : (w.heap.get r).stateAt index = .deferred id) (target : find a.target id w = .ok (some t) w) :
    ∃ after, resolve r association w = .ok (.one (some t)) after ∧ after.store = w.store ∧
      after.identity = w.identity := by
  have side : a.mappedBy = none := Option.isNone_iff_eq_none.mp owning
  have unloaded : ((w.heap.get r).stateAt index).isLoaded = false := by
    rw [deferred]
    rfl
  have held := Heap.holds_of_deferred unloaded
  have inside := Instance.inside_of_deferred unloaded
  have filled : ((w.heap.modify r (·.fill index (.one (some t)))).get r).stateAt index = .one (some t) := by
    rw [Heap.get_modify_self held]
    simp [Instance.fill, deferred, AssociationState.isLoaded, Instance.stateAt_withState, inside]
  refine ⟨{ w with heap := w.heap.modify r (·.fill index (.one (some t))) }, ?_, rfl, rfl⟩
  have declares : (w.heap.get r).entity.associations.getD index default = a := by
    rw [List.getD_eq_getElem?_getD, declared, Option.getD_some]
  have looked : load r w = .ok (w.heap.get r) w := rfl
  have indexed : check ((w.heap.get r).entity.associationIndex association) w = .ok index w := by
    rw [found]
    rfl
  have loaded : loadOwning a id w = .ok (.one (some t)) w := by
    unfold loadOwning
    rw [bind_run, target]
    rfl
  unfold resolve
  rw [bind_run, looked]
  dsimp only
  rw [bind_run, indexed]
  dsimp only
  rw [deferred]
  dsimp only
  rw [declares, side]
  dsimp only
  rw [bind_run, loaded]
  exact congrArg (EStateM.Result.ok · _) filled

end Session

namespace Program

/-- One instance stands for each identity of an open session, whatever has happened before: entries stand under the
present keys of their instances; what is handed out is what is registered; between two answers for one key only
forgetting can put another instance; and a registered instance is found, or reached through an association, without
a word to the store. -/
structure OneInstance (p : Program) (name : String) (w : Work) : Prop where
  entries : ∀ key r, (key, r) ∈ w.identity.entries → EntityKey.of (w.heap.get r).entity.name (w.heap.get r).id = .ok key
  handed : ∀ request r after, p.Hands name request r after →
    ∃ v, after.work name = some v ∧ v.identity.contains v.heap r = true
  same : ∀ request r q actions request' r' after, p.Hands name request r q →
    (∀ action ∈ actions, ¬action.forgets name) → (q.run actions).Hands name request' r' after →
    (after.heap.get r').key = (q.heap.get r).key → r' = r
  found : ∀ entity id e v key r, w.registry.describe entity = .ok e → Session.keyOf e entity id = .ok v →
    EntityKey.of entity v = .ok key → w.identity.get? key = some r → Session.find entity id w = .ok (some r) w
  foundAgain : ∀ r ∈ w.identity.refs, w.registry.describe (w.heap.get r).entity.name = .ok (w.heap.get r).entity →
    Session.find (w.heap.get r).entity.name (w.heap.get r).id w = .ok (some r) w
  resolved : ∀ r association index a id e v key t,
    (w.heap.get r).entity.associationIndex association = .ok index →
    (w.heap.get r).entity.associations[index]? = some a → a.isOwning = true →
    (w.heap.get r).stateAt index = .deferred id → w.registry.describe a.target = .ok e →
    Session.keyOf e a.target id = .ok v → EntityKey.of a.target v = .ok key → w.identity.get? key = some t →
    ∃ after, Session.resolve r association w = .ok (.one (some t)) after ∧ after.store = w.store ∧
      after.identity = w.identity

theorem Reachable.oneInstance {p : Program} (reach : p.Reachable) {name : String} {w : Work}
    (opened : p.work name = some w) : p.OneInstance name w := by
  have valid := reach.consistent.work_valid opened
  have typed : w.heap.Typed := by
    obtain ⟨s, _, rfl⟩ := work_eq_some.mp opened
    exact reach.consistent.typed
  refine ⟨valid.keyed, ?_, ?_, fun _ _ _ _ _ _ => Session.find_registered, ?_, ?_⟩
  · intro request r after hands
    obtain ⟨v, opened, _, registered⟩ := reach.consistent.handed hands
    exact ⟨v, opened, registered⟩
  · intro request r q actions request' r' after first keeps second same
    have middle : q.Consistent := first.step ▸ reach.consistent.step _
    obtain ⟨v, atMiddle, heap, registered⟩ := reach.consistent.handed first
    obtain ⟨u, atEnd, heap', registered'⟩ := (middle.run actions).handed second
    obtain ⟨key, keyed, looked⟩ := Work.registered_iff.mp registered
    obtain ⟨key', keyed', looked'⟩ := Work.registered_iff.mp registered'
    rw [heap] at keyed
    rw [heap', same, keyed] at keyed'
    cases keyed'
    obtain ⟨u', atEnd', more, entries⟩ := ((remembers_run actions q keeps).trans second.remembers) v atMiddle
    rw [atEnd] at atEnd'
    cases atEnd'
    have same : u.identity = ⟨v.identity.entries ++ more⟩ := congrArg IdentityMap.mk entries
    have still : u.identity.get? key = some r := same ▸ IdentityMap.get?_append looked
    exact Option.some.inj (looked'.symm.trans still)
  · exact fun r member => Session.find_again valid typed member
  · intro r association index a id e v key t found declared owning deferred described coerced keyed looked
    exact Session.resolve_registered found declared owning deferred
      (Session.find_registered described coerced keyed looked)

/-- Members with the keys that the store makes for them. -/
def memberEntity : Entity :=
  ⟨"member", "members", [⟨"id", "id", .integer⟩, ⟨"name", "user_name", .text⟩], ⟨0, by decide⟩, []⟩

/-- A session that has saved one member. -/
def saved : Program :=
  (start ⟨[.rows .empty, .rows ⟨["id"], [[.int 7]]⟩], []⟩).run
    [.create memberEntity, .begin "main" ⟨.postgres, .defaults⟩ ⟨[memberEntity]⟩, .request "main" (.persist ⟨0⟩)]

theorem oneInstance_saved : ∃ w, saved.work "main" = some w ∧ w.identity.refs = [⟨0⟩] ∧ saved.OneInstance "main" w :=
  ⟨_, rfl, rfl, Reachable.oneInstance ((reachable_start _).run _) rfl⟩

end Program

end EntityMapper
