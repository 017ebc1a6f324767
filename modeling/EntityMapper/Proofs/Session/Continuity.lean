import EntityMapper.Proofs.Session.Operations
import EntityMapper.Proofs.Session.Rows

namespace EntityMapper

namespace Work

/-- What a session may do to the instances: its identity map stays valid, and managed instances that it has not
registered stay as they are and unregistered. Every instance stays well typed. -/
structure Continues (w after : Work) : Prop where
  typed : w.heap.Typed → after.heap.Typed
  keyed : w.identity.Keyed w.heap → after.identity.Keyed after.heap
  outside : ∀ r, (w.heap.get r).managed = true → r ∉ w.identity.refs →
    (w.heap.get r).Alike (after.heap.get r) ∧ r ∉ after.identity.refs

instance : IsPreorder Work Continues where
  refl _ := ⟨id, id, fun _ _ apart => ⟨.refl _, apart⟩⟩
  trans w middle after first second := by
    refine ⟨fun typed => second.typed (first.typed typed), fun valid => second.keyed (first.keyed valid), ?_⟩
    intro r managed apart
    obtain ⟨alike, stillApart⟩ := first.outside r managed apart
    obtain ⟨alikeAfter, apartAfter⟩ := second.outside r (by rw [alike.managed]; exact managed) stillApart
    exact ⟨alike.trans alikeAfter, apartAfter⟩

/-- A session that forgets nothing: new entries are added behind the others. -/
structure Grows (w after : Work) : Prop extends w.Continues after where
  entries : ∃ more, after.identity.entries = w.identity.entries ++ more

instance : IsPreorder Work Grows where
  refl w := ⟨refl_of Continues w, ⟨[], by simp⟩⟩
  trans w middle after first second := by
    obtain ⟨more, atMiddle⟩ := first.entries
    obtain ⟨others, atEnd⟩ := second.entries
    exact ⟨trans_of Continues first.toContinues second.toContinues,
      ⟨more ++ others, by rw [atEnd, atMiddle, List.append_assoc]⟩⟩

/-- As long as nothing is registered, instances only have to keep their keys and their standing. -/
theorem Grows.of_keeps {w after : Work} (same : after.identity = w.identity) (kept : w.heap.Keeps after.heap) :
    w.Grows after := by
  refine ⟨⟨kept.typed, ?_, ?_⟩, ⟨[], by rw [same, List.append_nil]⟩⟩
  · intro valid
    rw [same]
    exact valid.of_keeps kept
  · intro r managed apart
    rw [same]
    exact ⟨kept.alike r (w.heap.holds_of_managed managed), apart⟩

end Work

namespace Session

open Work

/-- Rows are materialized apart; the session then takes over the instances and registers the staged ones. -/
theorem hydrate_run (layout : Layout) (rows : List (List Value)) (w : Work) :
    hydrate layout rows w =
      match Hydration.recordsOf layout rows ⟨w.heap, w.identity, [], []⟩ with
      | .ok found h => .ok found { w with heap := h.heap, identity := ⟨w.identity.entries ++ h.staged⟩ }
      | .error e h => .error e { w with heap := h.heap } := by
  have valid := Hydration.staged_nil w.heap w.identity []
  have extended := Hydration.respects_recordsOf layout rows ⟨w.heap, w.identity, [], []⟩
  unfold hydrate
  simp only [bind_run, get_run]
  cases run : Hydration.recordsOf layout rows ⟨w.heap, w.identity, [], []⟩ with
  | ok found h =>
    rw [leaves_of_ok run] at extended
    simp only [Hydration.records_run valid run, extended.identity]
    rfl
  | error e h =>
    rw [leaves_of_error run] at extended
    have failed : Hydration.records layout rows ⟨w.heap, w.identity, [], []⟩ = .error e h := by
      unfold Hydration.records
      rw [bind_run, run]
    simp only [failed, extended.identity]
    rfl

theorem heap_hydrate (layout : Layout) (rows : List (List Value)) (w : Work) :
    (leaves (hydrate layout rows) w).heap =
      (leaves (Hydration.recordsOf layout rows) ⟨w.heap, w.identity, [], []⟩).heap := by
  unfold leaves
  rw [hydrate_run]
  cases Hydration.recordsOf layout rows ⟨w.heap, w.identity, [], []⟩ with
  | ok found h => rfl
  | error e h => rfl

/-- The rows of a query grow instances; those it stages are new ones, which it registers. -/
theorem grows_hydrate (layout : Layout) (rows : List (List Value)) : Respects Grows (hydrate layout rows) := by
  intro w
  have extended := Hydration.respects_recordsOf layout rows ⟨w.heap, w.identity, [], []⟩
  unfold leaves at extended ⊢
  rw [hydrate_run]
  cases run : Hydration.recordsOf layout rows ⟨w.heap, w.identity, [], []⟩ with
  | error e h =>
    rw [run] at extended
    exact .of_keeps rfl extended.keeps
  | ok found h =>
    rw [run] at extended
    obtain ⟨more, staged, fresh⟩ := extended.staged
    rw [List.nil_append] at staged
    have kept := extended.keeps
    refine ⟨⟨kept.typed, ?_, ?_⟩, ⟨h.staged, rfl⟩⟩
    · intro valid
      have before := Hydration.staged_nil w.heap w.identity []
      have registered := extended.valid before
      refine (valid.of_keeps kept).append registered.keyed registered.distinct ?_ registered.managed
      intro key r member
      rw [← registered.free key r member, extended.identity]
    · intro r managed apart
      refine ⟨kept.alike r (w.heap.holds_of_managed managed), ?_⟩
      intro registered
      rcases List.mem_append.mp (by simpa only [IdentityMap.refs, List.map_append] using registered) with old | new
      · exact apart old
      -- Staged instances are younger than any instance that was there before.
      · obtain ⟨entry, member, same⟩ := List.mem_map.mp new
        have inside : r.index < w.heap.instances.size := w.heap.holds_of_managed managed
        have outside := fresh entry (staged ▸ member)
        rw [same] at outside
        exact absurd inside (Nat.not_lt.mpr outside)

/-- An instance that is not managed is not registered, so saving it disturbs no entry. -/
theorem grows_settle {w : Work} {r : Ref} (key? : Option Value) (fresh : (w.heap.get r).managed = false) :
    Grows w (leaves (settle r (w.heap.get r) key?) w) := by
  rcases settle_cases r key? w with ⟨e, failed⟩ | ⟨change, keyed, settled⟩
  · rw [leaves_of_error failed]
    exact refl_of Grows w
  have typed (typed : w.heap.Typed) : (w.heap.modify r change).Typed := by
    refine Heap.typed_modify typed r fun well => ?_
    rcases keyed with same | ⟨key, keyed, assigned, same⟩
    · rw [same]
      exact well
    · have wellKeyed : keyed.WellTyped := Instance.wellTyped_assignKey assigned well
      rw [same]
      exact wellKeyed
  have apart : ∀ s, (w.heap.get s).managed = true → s ≠ r := by
    rintro s managed rfl
    rw [fresh] at managed
    cases managed
  have alike : ∀ s, (w.heap.get s).managed = true → (w.heap.get s).Alike ((w.heap.modify r change).get s) := by
    intro s managed
    rw [Heap.get_modify_of_ne (apart s managed)]
    exact .refl _
  have still (valid : w.identity.Keyed w.heap) : w.identity.Keyed (w.heap.modify r change) :=
    valid.of_alike fun s member => alike s (valid.managed s member)
  have unregistered : Grows w { w with heap := w.heap.modify r change } :=
    ⟨⟨typed, still, fun s managed outside => ⟨alike s managed, outside⟩⟩, ⟨[], (List.append_nil _).symm⟩⟩
  unfold leaves
  rw [settled, register_run]
  cases registered : w.identity.register (w.heap.modify r change) r with
  | error e => exact unregistered
  | ok result =>
    obtain ⟨key, identity⟩ := result
    obtain ⟨atKey, ⟨_, rfl⟩ | ⟨free, rfl⟩⟩ := IdentityMap.register_ok registered
    · exact unregistered
    have managed : ((w.heap.modify r change).get r).managed = true := by
      rw [Heap.get_modify_self (Heap.holds_modify.mp (Heap.holds_of_key atKey))]
      rcases keyed with same | ⟨_, _, _, same⟩
      · rw [same]
        rfl
      · rw [same]
        rfl
    refine ⟨⟨typed, fun valid => ?_, fun s before outside => ⟨alike s before, ?_⟩⟩, ⟨[(key, r)], rfl⟩⟩
    · refine (still valid).append ?_ (List.nodup_singleton _) ?_ ?_
      all_goals
        intro other s member
        cases List.mem_singleton.mp member
        assumption
    · simp only [IdentityMap.refs, List.map_append, List.mem_append, List.map_singleton, List.mem_singleton, not_or]
      exact ⟨outside, apart s before⟩

/-- No step of a session disturbs what is registered. -/
theorem steps_grows : RowSteps Grows where
  called w _ _ := .of_keeps rfl (.refl w.heap)
  made w e := .of_keeps rfl (w.heap.keeps_allocate (Instance.wellTyped_new e))
  written w r := .of_keeps rfl (w.heap.keeps_modify r Instance.alike_written)
  settled _ _ := grows_settle
  read := grows_hydrate
  filled w r index _ _ := .of_keeps rfl (w.heap.keeps_modify r fun i => i.alike_fill index _)

theorem steps_continues : RowSteps Continues := steps_grows.mono fun _ _ => Grows.toContinues

/-- Forgetting every instance detaches those that were registered and no others. -/
theorem continues_detachAll : Respects Continues detachAll := by
  refine .modify fun w => ⟨fun typed => ?_, fun _ => IdentityMap.keyed_empty _,
    fun r _ outside => ⟨?_, List.not_mem_nil⟩⟩
  · exact List.foldlRecOn _ _ typed fun _ before s _ => Heap.typed_modify before s id
  · have same : (w.identity.refs.foldl (fun h s => h.modify s Instance.detach) w.heap).get r = w.heap.get r := by
      refine List.foldlRecOn (motive := fun h : Heap => h.get r = w.heap.get r) _ _ rfl fun h before s member => ?_
      have other : r ≠ s := fun own => outside (own ▸ member)
      rw [Heap.get_modify_of_ne other, before]
    rw [same]
    exact .refl _

end Session

end EntityMapper
