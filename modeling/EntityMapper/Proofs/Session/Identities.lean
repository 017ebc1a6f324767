import Mathlib.Data.List.Nodup
import EntityMapper.Proofs.Action
import EntityMapper.Proofs.Session.Instances

namespace EntityMapper.IdentityMap

/-- Every entry stands under the key that its instance has now, no key has two entries, and what is registered is
managed. -/
structure Keyed (m : IdentityMap) (h : Heap) : Prop where
  keyed : ∀ key r, (key, r) ∈ m.entries → (h.get r).key = .ok key
  distinct : (m.entries.map (·.1)).Nodup
  managed : ∀ r ∈ m.refs, (h.get r).managed = true

theorem keyed_empty (h : Heap) : empty.Keyed h :=
  ⟨fun _ _ member => absurd member List.not_mem_nil, List.nodup_nil, fun _ member => absurd member List.not_mem_nil⟩

theorem mem_refs {m : IdentityMap} {key : EntityKey} {r : Ref} (member : (key, r) ∈ m.entries) : r ∈ m.refs :=
  List.mem_map.mpr ⟨(key, r), member, rfl⟩

theorem mem_of_get? {m : IdentityMap} {key : EntityKey} {r : Ref} (found : m.get? key = some r) :
    (key, r) ∈ m.entries := by
  obtain ⟨before, after, split, _⟩ := List.lookup_eq_some_iff.mp found
  rw [split]
  exact List.mem_append_right before List.mem_cons_self

theorem get?_eq_none {m : IdentityMap} {key : EntityKey} :
    m.get? key = none ↔ ∀ r, (key, r) ∉ m.entries := by
  unfold get?
  rw [List.lookup_eq_none_iff]
  constructor
  · intro absent r member
    simpa using absent (key, r) member
  · rintro absent ⟨other, r⟩ member
    by_contra same
    have equal : key = other := by simpa using same
    exact absent r (equal ▸ member)

theorem Keyed.get?_of_mem {m : IdentityMap} {h : Heap} (valid : m.Keyed h) {key : EntityKey} {r : Ref}
    (member : (key, r) ∈ m.entries) : m.get? key = some r := by
  cases found : m.get? key with
  | none => exact absurd member (get?_eq_none.mp found r)
  | some s =>
    have same := (List.inj_on_of_nodup_map valid.distinct) (mem_of_get? found) member rfl
    exact congrArg (fun entry => some entry.2) same

theorem Keyed.holds {m : IdentityMap} {h : Heap} (valid : m.Keyed h) {r : Ref} (member : r ∈ m.refs) : h.Holds r :=
  h.holds_of_managed (valid.managed r member)

theorem contains_of_get? {m : IdentityMap} {h : Heap} {key : EntityKey} {r : Ref} (found : m.get? key = some r)
    (keyed : (h.get r).key = .ok key) : m.contains h r = true := by
  simp only [contains, keyed, found, beq_self_eq_true]

theorem Keyed.nodup_refs {m : IdentityMap} {h : Heap} (valid : m.Keyed h) : m.refs.Nodup := by
  refine (List.nodup_map_iff_inj_on (List.Nodup.of_map _ valid.distinct)).mpr ?_
  rintro ⟨key, r⟩ first ⟨other, s⟩ second same
  cases same
  have keys := (valid.keyed key r first).symm.trans (valid.keyed other r second)
  cases keys
  rfl

/-- Registered instances that keep their keys and their standing stay validly registered. -/
theorem Keyed.of_kept {m : IdentityMap} {h k : Heap} (valid : m.Keyed h)
    (kept : ∀ r ∈ m.refs, (k.get r).key = (h.get r).key ∧ (k.get r).managed = (h.get r).managed) : m.Keyed k := by
  refine ⟨?_, valid.distinct, ?_⟩
  · intro key r member
    rw [(kept r (mem_refs member)).1]
    exact valid.keyed key r member
  · intro r member
    rw [(kept r member).2]
    exact valid.managed r member

theorem Keyed.of_alike {m : IdentityMap} {h k : Heap} (valid : m.Keyed h)
    (alike : ∀ r ∈ m.refs, (h.get r).Alike (k.get r)) : m.Keyed k :=
  valid.of_kept fun r member => ⟨(alike r member).key, (alike r member).managed⟩

theorem Keyed.of_keeps {m : IdentityMap} {h k : Heap} (valid : m.Keyed h) (kept : h.Keeps k) : m.Keyed k :=
  valid.of_alike fun r member => kept.alike r (valid.holds member)

/-- A registration finds the instance under its key or appends it under a key that was free. -/
theorem register_ok {m n : IdentityMap} {h : Heap} {r : Ref} {key : EntityKey}
    (run : m.register h r = .ok (key, n)) :
    (h.get r).key = .ok key ∧
      (m.get? key = some r ∧ n = m ∨ m.get? key = none ∧ n = ⟨m.entries ++ [(key, r)]⟩) := by
  obtain ⟨own, keyed, rest⟩ := Except.bind_eq_ok.mp run
  split at rest
  case h_1 existing found =>
    split at rest
    case isTrue same =>
      cases rest
      exact ⟨keyed, .inl ⟨same ▸ found, rfl⟩⟩
    case isFalse => cases rest
  case h_2 free =>
    cases rest
    exact ⟨keyed, .inr ⟨free, rfl⟩⟩

/-- Under a free key every instance is registered. -/
theorem register_free {m : IdentityMap} {h : Heap} {r : Ref} {key : EntityKey} (keyed : (h.get r).key = .ok key)
    (free : m.get? key = none) : m.register h r = .ok (key, ⟨m.entries ++ [(key, r)]⟩) := by
  simp only [register, keyed, Except.ok_bind, free]

/-- Managed instances may be registered under their own keys as far as these are different from each other and free. -/
theorem Keyed.append {m : IdentityMap} {h : Heap} (valid : m.Keyed h) {more : List (EntityKey × Ref)}
    (keyed : ∀ key r, (key, r) ∈ more → (h.get r).key = .ok key) (distinct : (more.map (·.1)).Nodup)
    (free : ∀ key r, (key, r) ∈ more → m.get? key = none)
    (managed : ∀ key r, (key, r) ∈ more → (h.get r).managed = true) :
    (⟨m.entries ++ more⟩ : IdentityMap).Keyed h := by
  refine ⟨?_, ?_, ?_⟩
  · intro key r member
    rcases List.mem_append.mp member with old | new
    · exact valid.keyed key r old
    · exact keyed key r new
  · rw [List.map_append, List.nodup_append]
    refine ⟨valid.distinct, distinct, ?_⟩
    intro key old other new same
    obtain ⟨⟨_, r⟩, member, rfl⟩ := List.mem_map.mp old
    obtain ⟨⟨_, s⟩, added, rfl⟩ := List.mem_map.mp new
    cases same
    exact get?_eq_none.mp (free _ s added) r member
  · intro r member
    rcases List.mem_append.mp (by simpa only [refs, List.map_append] using member) with old | new
    · exact valid.managed r old
    · obtain ⟨⟨key, _⟩, added, rfl⟩ := List.mem_map.mp new
      exact managed key _ added

/-- Entries that are added behind others hide none of them. -/
theorem get?_append {m : IdentityMap} {more : List (EntityKey × Ref)} {key : EntityKey} {r : Ref}
    (found : m.get? key = some r) : (⟨m.entries ++ more⟩ : IdentityMap).get? key = some r := by
  unfold get? at found ⊢
  rw [List.lookup_append, found, Option.some_or]

end EntityMapper.IdentityMap
