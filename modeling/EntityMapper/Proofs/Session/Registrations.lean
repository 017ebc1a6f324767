import EntityMapper.Proofs.Session.Unwritten

namespace EntityMapper

namespace Hydration

variable {h : Hydration} {before after : List (EntityKey × Ref)} {key : EntityKey} {r : Ref}

/-- Up to any point, the staged instances are registered under the keys that they are staged under. -/
theorem Staged.registerAll_front (valid : h.Staged) (split : h.staged = before ++ after) :
    registerAll before h = .ok () { h with identity := ⟨h.identity.entries ++ before⟩ } := by
  have member {entry : EntityKey × Ref} (inside : entry ∈ before) : entry ∈ h.staged :=
    split ▸ List.mem_append_left after inside
  have distinct := valid.distinct
  rw [split, List.map_append] at distinct
  exact registerAll_run before h (fun key r inside => valid.keyed key r (member inside)) distinct.of_append_left
    fun key r inside => valid.free key r (member inside)

/-- When its turn comes, a staged instance still has the key that it is staged under, and neither the identity map nor
an instance staged before it has that key. -/
theorem Staged.register_next (valid : h.Staged) (split : h.staged = before ++ (key, r) :: after) :
    IdentityMap.register h.heap ⟨h.identity.entries ++ before⟩ r =
      .ok (key, ⟨h.identity.entries ++ (before ++ [(key, r)])⟩) := by
  have member : (key, r) ∈ h.staged := split ▸ List.mem_append_right before List.mem_cons_self
  have apart : ∀ s, (key, s) ∉ before := by
    intro s earlier
    have distinct := valid.distinct
    rw [split, List.map_append, List.map_cons] at distinct
    exact List.disjoint_of_nodup_append distinct (List.mem_map_of_mem earlier) List.mem_cons_self
  have free : (⟨h.identity.entries ++ before⟩ : IdentityMap).get? key = none := by
    refine IdentityMap.get?_eq_none.mpr fun s inside => ?_
    rcases List.mem_append.mp inside with registered | earlier
    · exact IdentityMap.get?_eq_none.mp (valid.free key r member) s registered
    · exact apart s earlier
  rw [IdentityMap.register_free (valid.keyed key r member) free, List.append_assoc]

end Hydration

open Hydration

/-- The instances of an execution are registered all or none. Whatever rows of a compiled query are read, and whatever
the identity map holds, the registrations that follow the last row cannot fail: each finds the staged instance under the
key that it is staged under, and that key free. Then every key of the rows that was not registered is. If a row fails,
nothing is registered. -/
theorem Hydration.registration_whole {registry : Registry} {d : Dialect} {p : Plan} {query : CompiledQuery}
    (compiled : compile registry d p = .ok query) (heap : Heap) (identity : IdentityMap) (rows : List (List Value)) :
    (∀ found k, recordsOf query.layout rows ⟨heap, identity, [], []⟩ = .ok found k →
      (∀ before key r after, k.staged = before ++ (key, r) :: after →
        registerAll before k = .ok () { k with identity := ⟨identity.entries ++ before⟩ } ∧
        IdentityMap.register k.heap ⟨identity.entries ++ before⟩ r =
          .ok (key, ⟨identity.entries ++ (before ++ [(key, r)])⟩)) ∧
      k.staged.map (·.1) =
        ((rows.flatMap query.layout.keys).filter fun key => (identity.get? key).isNone).eraseDups ∧
      records query.layout rows ⟨heap, identity, [], []⟩ =
        .ok found { k with identity := ⟨identity.entries ++ k.staged⟩ }) ∧
      ∀ e k, records query.layout rows ⟨heap, identity, [], []⟩ = .error e k →
        recordsOf query.layout rows ⟨heap, identity, [], []⟩ = .error e k ∧ k.identity = identity := by
  have sound := Layout.sound_of_compile compiled
  have empty := staged_nil heap identity []
  have extended := respects_recordsOf query.layout rows ⟨heap, identity, [], []⟩
  refine ⟨fun found k read => ?_, fun e k failed => ?_⟩
  · rw [leaves_of_ok read] at extended
    have same : k.identity = identity := extended.identity
    have valid := extended.valid empty
    refine ⟨fun before key r after split => ?_, staged_keys sound.kinds read, ?_⟩
    · rw [← same]
      exact ⟨valid.registerAll_front split, valid.register_next split⟩
    · rw [records_run empty read, same]
  · have stopped := records_error empty failed
    rw [leaves_of_error stopped] at extended
    exact ⟨stopped, extended.identity⟩

/-- Two players of a registered team are staged and registered; the team is not registered again. -/
theorem Hydration.registration_whole_roster : ∃ query found k,
    compile ⟨[teamEntity, playerEntity]⟩ .postgres rosterPlan = .ok query ∧
      recordsOf query.layout twoPlayers.rows ⟨rosterHeap, rosterIdentity, [], []⟩ = .ok found k ∧
      k.staged.map (·.1) = [⟨"player", .int 10⟩, ⟨"player", .int 11⟩] ∧
      IdentityMap.register k.heap ⟨rosterIdentity.entries ++ [(⟨"player", .int 10⟩, ⟨1⟩)]⟩ ⟨2⟩ =
        .ok (⟨"player", .int 11⟩, ⟨rosterIdentity.entries ++
          [(⟨"player", .int 10⟩, ⟨1⟩), (⟨"player", .int 11⟩, ⟨2⟩)]⟩) ∧
      records query.layout twoPlayers.rows ⟨rosterHeap, rosterIdentity, [], []⟩ =
        .ok found { k with identity := ⟨rosterIdentity.entries ++ k.staged⟩ } := by
  have compiled : compile ⟨[teamEntity, playerEntity]⟩ .postgres rosterPlan = .ok ⟨_, rosterLayout⟩ := rfl
  obtain ⟨steps, -, whole⟩ :=
    (registration_whole compiled rosterHeap rosterIdentity twoPlayers.rows).1 _ _ rfl
  exact ⟨_, _, _, compiled, rfl, rfl, (steps [(⟨"player", .int 10⟩, ⟨1⟩)] _ _ [] rfl).2, whole⟩

end EntityMapper
