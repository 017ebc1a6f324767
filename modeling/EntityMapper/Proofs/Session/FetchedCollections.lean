import EntityMapper.Proofs.Compile.AliasEntities
import EntityMapper.Proofs.Schema.Members
import EntityMapper.Proofs.Session.Collections
import EntityMapper.Proofs.Session.Unwritten

namespace EntityMapper

/-- All entities of a layout are described, and what is fetched is the target of an association that the owner's entity
declares. -/
structure Layout.Described (registry : Registry) (l : Layout) : Prop where
  places : ∀ p ∈ l.places, registry.Describes p.entity
  fetches : ∀ b ∈ l.fetches, ∃ e, registry.Describes e ∧ b.association ∈ e.associations ∧
    registry.describe b.association.target = .ok b.target.entity ∧ ∀ p ∈ l.places, p.name = b.owner → p.entity = e

variable {registry : Registry}

/-- A selected entity of a layout is projected. -/
theorem Layout.mem_selected {ps : List Projection} {fs : List FetchJoin} {place : Place}
    (member : place ∈ (ofProjections ps fs).selected) :
    ∃ a ∈ ps.filterMap (·.source?), place.name = a.name ∧ place.entity = a.entity := by
  obtain ⟨item, listed, found⟩ := List.mem_filterMap.mp member
  obtain ⟨a, source, rfl⟩ := Option.map_eq_some_iff.mp found
  refine ⟨a, List.mem_filterMap.mpr ⟨item.projection, ?_, source⟩, rfl, rfl⟩
  have projected := List.mem_map_of_mem (f := (·.projection)) listed
  rwa [ofProjections, projections_place] at projected

theorem Layout.mem_fetches {ps : List Projection} {fs : List FetchJoin} {b : FetchBinding}
    (member : b ∈ (ofProjections ps fs).fetches) : b.toFetchJoin ∈ fs := by
  rw [← fetches_bind (visibleWidth ps) fs]
  exact List.mem_map_of_mem member

namespace Select.Resolves

variable {outer : List Scope} {role : Role} {p : Plan} {scope : Scope} {s : Select}

/-- What is fetched is the target of one of the plan's joins. -/
theorem fetched_join (r : Resolves registry outer role p scope s) {f : FetchJoin} (member : f ∈ s.fetches) :
    ∃ j ∈ p.joins, ∃ path, j.association = some path ∧ path.owner.name = f.owner ∧
      path.association = f.association ∧ j.target = f.target := by
  obtain ⟨fetched, atFetches, same⟩ := r.fetches
  rw [same] at member
  split at member
  · exact absurd member List.not_mem_nil
  · rcases List.mem_append.mp (Plan.fetches_joins atFetches f member) with source | joined
    · obtain ⟨a, _, table⟩ := List.mem_map.mp source
      cases congrArg (·.link) table
    · obtain ⟨j, listed, table⟩ := List.mem_map.mp joined
      have link : j.link = some (f.owner, f.association) := congrArg (·.link) table
      obtain ⟨path, follows, pair⟩ := Option.map_eq_some_iff.mp link
      obtain ⟨owner, association⟩ := Prod.mk.inj pair
      exact ⟨j, listed, path, follows, owner, association, congrArg (·.source) table⟩

theorem described (r : Resolves registry outer role p scope s) (registered : p.Registered registry)
    (projected : ∀ a ∈ p.selected, registry.Describes a.entity) (unambiguous : p.Unambiguous) :
    (Layout.ofProjections p.projections s.fetches).Described registry := by
  have mentioned : ∀ place ∈ (Layout.ofProjections p.projections s.fetches).places,
      registry.Describes place.entity ∧ (place.name, place.entity.name) ∈ p.mentions := by
    intro place member
    rcases List.mem_append.mp member with selected | fetched
    · obtain ⟨a, listed, name, entity⟩ := Layout.mem_selected selected
      rw [name, entity]
      refine ⟨projected a listed, ?_⟩
      simp only [Plan.mentions, List.mem_append, List.mem_map]
      exact .inl (.inr ⟨a, listed, rfl⟩)
    · obtain ⟨b, listed, rfl⟩ := List.mem_map.mp fetched
      obtain ⟨j, joined, path, _, _, _, target⟩ := r.fetched_join (Layout.mem_fetches listed)
      change registry.Describes b.target.entity ∧ (b.target.name, b.target.entity.name) ∈ p.mentions
      rw [← target]
      refine ⟨registered.targets j joined, ?_⟩
      simp only [Plan.mentions, List.mem_append, List.mem_map]
      exact .inl (.inl (.inl (.inr ⟨j, joined, rfl⟩)))
  refine ⟨fun place member => (mentioned place member).1, fun b member => ?_⟩
  obtain ⟨j, joined, path, follows, owner, association, target⟩ := r.fetched_join (Layout.mem_fetches member)
  obtain ⟨single, leads⟩ := (Scope.ofPlan_opens r.opened).joins j joined path follows
  obtain ⟨described, middle, start, found, reached⟩ := (registered.associations j joined path follows).leads
  rw [single] at start
  cases start
  have same : path.target = j.target.entity :=
    (Registry.describes_of_describe reached).eq (registered.targets j joined) leads
  rw [same, target, association] at reached
  rw [association] at found
  refine ⟨path.owner.entity, described, List.mem_of_find?_eq_some found, reached, fun place listed name => ?_⟩
  obtain ⟨known, mention⟩ := mentioned place listed
  rw [name, ← owner] at mention
  exact known.eq described (unambiguous p p .self .self _ _ _ mention (Plan.mentions_owner joined follows))

end Select.Resolves

/-- Each entry of the identity map leads to an instance of the entity that its key names. -/
def IdentityMap.Named (m : IdentityMap) (h : Heap) : Prop :=
  ∀ key r, (key, r) ∈ m.entries → h.Holds r ∧ (h.get r).entity.name = key.entity

namespace Hydration

variable {heap : Heap} {identity : IdentityMap} {l : Hydration} {layout : Layout} {rows : List (List Value)}

theorem name_of_lookup (named : identity.Named heap) (extended : Extends ⟨heap, identity, [], []⟩ l) {key : EntityKey}
    {r : Ref} (found : l.lookup key = some r) : (l.heap.get r).entity.name = key.entity := by
  rcases Option.or_eq_some_iff.mp found with registered | ⟨_, staged⟩
  · rw [extended.identity] at registered
    obtain ⟨held, name⟩ := named key r (IdentityMap.mem_of_get? registered)
    rw [(extended.grown r held).entity]
    exact name
  · obtain ⟨before, after, split, _⟩ := List.lookup_eq_some_iff.mp staged
    have member : (key, r) ∈ l.staged := by
      rw [split]
      exact List.mem_append_right before List.mem_cons_self
    exact (EntityKey.entity_of ((extended.valid (staged_nil heap identity [])).keyed key r member)).symm

/-- The owner of each attachment has its association. -/
theorem Runs.declared {h : Hydration} {readings : List EntityColumns} {attachments : List Attachment}
    (runs : Runs h readings attachments l) : ∀ made ∈ attachments, ∀ owner, l.lookup made.owner = some owner →
      ∃ n, (l.heap.get owner).entity.associationIndex made.association.name = .ok n := by
  induction runs with
  | still => exact fun _ none => absurd none List.not_mem_nil
  | read _ _ ih => exact ih
  | @attach made owner target h k l _ _ owned resolves run next ih =>
    refine List.forall_mem_cons.mpr ⟨fun led found => ?_, ih⟩
    have extended := trans_of Extends (extends_of_attach run) next.extends
    cases (extended.lookup owned).symm.trans found
    cases declared : (h.heap.get owner).entity.associationIndex made.association.name with
    | error e => cases (attach_undeclared declared target).symm.trans run
    | ok n => exact ⟨n, by rw [(extended.grown owner (Heap.holds_of_associationIndex declared)).entity, declared]⟩

theorem mem_readings {q : EntityColumns} (member : q ∈ rows.flatMap layout.readings) :
    ∃ p ∈ layout.places, q.entity = p.entity := by
  obtain ⟨row, _, inside⟩ := List.mem_flatMap.mp member
  obtain ⟨p, listed, rfl⟩ := List.mem_map.mp inside
  exact ⟨p, listed, rfl⟩

/-- The owner of an attachment is an instance of the entity that declares the association. -/
theorem owner_described (described : layout.Described registry) {made : Attachment}
    (member : made ∈ rows.flatMap layout.attachments) : ∃ b ∈ layout.fetches, made.association = b.association ∧
      (∃ row, made.target = b.place.key? row) ∧ ∃ e, registry.Describes e ∧ b.association ∈ e.associations ∧
        made.owner.entity = e.name ∧ registry.describe b.association.target = .ok b.target.entity := by
  obtain ⟨row, _, inside⟩ := List.mem_flatMap.mp member
  obtain ⟨b, listed, association, target, p, among, name, keyed⟩ := Layout.mem_attachments inside
  obtain ⟨e, known, declares, reached, owners⟩ := described.fetches b listed
  refine ⟨b, listed, association, ⟨row, target⟩, e, known, declares, ?_, reached⟩
  rw [← owners p among name]
  exact EntityColumns.entity_of_key? keyed

variable {definitions : List Definition} {readings : List EntityColumns}

/-- A collection that is fetched for an owner is filled by its own association alone. -/
theorem fills_of_described (built : Registry.build definitions = .ok registry) (described : layout.Described registry)
    (named : identity.Named heap)
    (runs : Runs ⟨heap, identity, [], []⟩ (rows.flatMap layout.readings) (rows.flatMap layout.attachments) l)
    {a : Association} (many : a.cardinality = .many) {made : Attachment}
    (member : made ∈ rows.flatMap layout.attachments) (own : made.association = a) {owner : Ref}
    (owned : l.lookup made.owner = some owner) :
    ∃ n, l.Fills owner n a (rows.flatMap layout.readings) (rows.flatMap layout.attachments) := by
  have extended := runs.extends
  obtain ⟨n, declared⟩ := runs.declared made member owner owned
  rw [own] at declared
  obtain ⟨b, _, association, _, e, known, declares, named', _⟩ := owner_described described member
  rw [← association, own] at declares
  have name : (l.heap.get owner).entity.name = e.name := (name_of_lookup named extended owned).trans named'
  have distinct := Registry.nodup_associations built (Registry.mem_of_describe known)
  have inverse := Registry.inverse_of_many built (Registry.mem_of_describe known) declares many
  refine ⟨n, declared, many, fun other inside led same => ?_, fun q inside entity => ?_, fun other inside led => ?_⟩
  · obtain ⟨c, _, theirs, _, f, knownToo, declaresToo, owner', _⟩ := owner_described described inside
    have equal : f = e :=
      knownToo.eq known ((owner'.symm.trans (name_of_lookup named extended led).symm).trans name)
    rw [equal, ← theirs] at declaresToo
    exact List.inj_on_of_nodup_map distinct declaresToo declares same
  · obtain ⟨p, listed, place⟩ := mem_readings inside
    have equal : q.entity = e := by
      rw [place] at entity ⊢
      exact (described.places p listed).eq known (entity ▸ name)
    have found := declared
    rw [← entity, equal] at found
    have atPlace := Instance.association_of_associationIndex found
    have same := List.inj_on_of_nodup_map distinct (List.mem_of_getElem? atPlace) declares
      (Entity.name_of_associationIndex found atPlace)
    rw [equal]
    exact ⟨_, atPlace, same ▸ inverse⟩
  · obtain ⟨c, listed, theirs, ⟨row, target⟩, f, knownToo, declaresToo, _, reached⟩ := owner_described described inside
    obtain ⟨key, keyed, found⟩ := resolves_some.mp led
    rw [target] at keyed
    have entity : c.target.entity.name = e.name :=
      (EntityColumns.entity_of_key? keyed).symm.trans ((name_of_lookup named extended found).symm.trans name)
    have equal : c.target.entity = e := (Registry.describes_of_describe reached).eq known entity
    rw [equal] at reached
    rw [theirs]
    exact fun back => Registry.name_ne_mappedBy built knownToo declaresToo back reached declares inverse rfl

end Hydration

namespace Instance

variable {i : Instance} {name : String} {n : Nat}

theorem isLoaded_of_index (found : i.entity.associationIndex name = .ok n) :
    i.isLoaded name = .ok (i.stateAt n).isLoaded := by
  rw [isLoaded, state, found]
  rfl

theorem collection_of_many {items : List Ref} (found : i.entity.associationIndex name = .ok n)
    (filled : i.stateAt n = .many items) : i.collection name = .ok items := by
  rw [collection, state, found, Except.ok_bind, filled]
  rfl

/-- An instance whose association is loaded has a place for it. -/
theorem index_of_isLoaded (loaded : i.isLoaded name = .ok true) :
    ∃ n, i.entity.associationIndex name = .ok n ∧ (i.stateAt n).isLoaded = true := by
  obtain ⟨state, run, loaded⟩ := Except.bind_eq_ok.mp loaded
  obtain ⟨n, found, run⟩ := Except.bind_eq_ok.mp run
  cases run
  exact ⟨n, found, Except.ok.inj loaded⟩

theorem Unwritten.collection {j : Instance} (kept : i.Unwritten j) (loaded : i.isLoaded name = .ok true) :
    j.collection name = i.collection name := by
  obtain ⟨n, found, at_⟩ := index_of_isLoaded loaded
  simp only [Instance.collection, state, kept.entity, found, Except.ok_bind, kept.loaded n at_]

end Instance

/-- Fetched collections lose and duplicate nothing. One that is loaded stays as it is. Any other one that rows have an
owner for ends with the distinct instances that the rows have for this owner, in the order in which they come first. -/
theorem Hydration.collection_records {definitions : List Definition}
    (built : Registry.build definitions = .ok registry) {d : Dialect} {p : Plan} {query : CompiledQuery}
    (registered : p.Registered registry) (projected : ∀ a ∈ p.selected, registry.Describes a.entity)
    (unambiguous : p.Unambiguous) (compiled : compile registry d p = .ok query) {heap : Heap} {identity : IdentityMap}
    (named : identity.Named heap) {rows : List (List Value)} {found : List Record} {k : Hydration}
    (run : records query.layout rows ⟨heap, identity, [], []⟩ = .ok found k) {a : Association}
    (many : a.cardinality = .many) (owner : Ref) :
    ((heap.get owner).isLoaded a.name = .ok true →
      (k.heap.get owner).collection a.name = (heap.get owner).collection a.name) ∧
    ((heap.get owner).isLoaded a.name ≠ .ok true →
      (∃ made ∈ rows.flatMap query.layout.attachments, made.association = a ∧
        k.identity.get? made.owner = some owner) →
      (k.heap.get owner).collection a.name =
        .ok (targetsOf k.identity.get? owner a (rows.flatMap query.layout.attachments)).reduceOption.eraseDups) := by
  obtain ⟨s, resolved, layout⟩ := Except.bind_eq_ok.mp compiled
  cases layout
  obtain ⟨scope, r⟩ := Select.ofPlan_eq_ok.mp resolved
  have described := r.described registered projected unambiguous
  obtain ⟨last, read, heap', _, known⟩ := records_ok run
  obtain ⟨runs, _⟩ := runs_recordsOf (Layout.kinds_place 0 p.projections) read
  rw [heap', known]
  refine ⟨fun loaded => ?_, fun unloaded => ?_⟩
  · obtain ⟨n, declared, _⟩ := Instance.index_of_isLoaded loaded
    have kept : (heap.get owner).Unwritten
        ((leaves (recordsOf (.ofProjections p.projections s.fetches) rows) ⟨heap, identity, [], []⟩).heap.get owner) :=
      unwritten_recordsOf (h := ⟨heap, identity, [], []⟩) (Heap.holds_of_associationIndex declared) fun _ =>
        List.not_mem_nil
    rw [leaves_of_ok read] at kept
    exact kept.collection loaded
  · rintro ⟨made, member, own, owned⟩
    obtain ⟨n, fills⟩ := fills_of_described built described named runs many member own owned
    have waits : Collects ⟨heap, identity, [], []⟩ owner n none := by
      refine .waiting List.not_mem_nil fun held => ?_
      have declared := fills.declared
      rw [(runs.extends.grown owner held).entity] at declared
      rw [Instance.isLoaded_of_index declared] at unloaded
      exact Bool.eq_false_iff.mpr fun loaded => unloaded (congrArg _ loaded)
    have targets :
        targetsOf last.lookup owner a (rows.flatMap (Layout.ofProjections p.projections s.fetches).attachments) ≠ [] := by
      refine List.ne_nil_of_mem (List.mem_map_of_mem (List.mem_filter.mpr ⟨member, ?_⟩))
      exact decide_eq_true ⟨owned, own⟩
    have ends := runs.collects fills waits
    rw [foldl_collect _ _ (.inl targets), Option.getD_none, gather_of_nil] at ends
    cases ends with
    | filling _ filled => exact Instance.collection_of_many fills.declared filled

open Hydration

def rosterDefinitions : List Definition := [
  ⟨"team", "teams", [.id "id" .integer, .inverse "members" "player" "team" .many]⟩,
  ⟨"player", "players", [.id "id" .integer, .reference "team" "team" "team_id"]⟩]

theorem rosterPlan_contains {q : Plan} (contains : rosterPlan.Contains q) : q = rosterPlan := by
  rcases Plan.contains_iff.mp contains with same | ⟨_, none, _⟩
  · exact same
  · exact absurd none List.not_mem_nil

theorem rosterPlan_registered : rosterPlan.Registered ⟨[teamEntity, playerEntity]⟩ := by
  refine ⟨List.forall_mem_singleton.mpr rfl, List.forall_mem_singleton.mpr rfl, ?_,
    fun _ none => absurd none List.not_mem_nil⟩
  refine List.forall_mem_singleton.mpr fun path follows => ?_
  have followed : (⟨"team", teamEntity⟩ : Alias).association ⟨[teamEntity, playerEntity]⟩ "members" = .ok path := by
    cases follows
    rfl
  have described : Registry.Describes ⟨[teamEntity, playerEntity]⟩ (⟨"team", teamEntity⟩ : Alias).entity := rfl
  exact .association described followed

theorem rosterPlan_unambiguous : rosterPlan.Unambiguous := by
  intro q r inQ inR name first second one two
  rw [rosterPlan_contains inQ] at one
  rw [rosterPlan_contains inR] at two
  have single : ∀ m ∈ rosterPlan.mentions, ∀ o ∈ rosterPlan.mentions, m.1 = o.1 → m.2 = o.2 := by decide
  exact single _ one _ two rfl

/-- Two players of a registered team, one of them twice, and a team without players. -/
def rosterPages : List (List Value) :=
  [[.int 1, .int 10, .int 1], [.int 2, .null, .null], [.int 1, .int 11, .int 1], [.int 1, .int 10, .int 1]]

/-- What the rows leave of the registered team. -/
def rosterRead : Hydration := leaves (records rosterLayout rosterPages) ⟨rosterHeap, rosterIdentity, [], []⟩

theorem records_rosterPages :
    ∃ found, records rosterLayout rosterPages ⟨rosterHeap, rosterIdentity, [], []⟩ = .ok found rosterRead :=
  ok_of_isSome (by decide +kernel)

theorem collection_records_roster : Registry.build rosterDefinitions = .ok ⟨[teamEntity, playerEntity]⟩ ∧
    rosterPlan.Registered ⟨[teamEntity, playerEntity]⟩ ∧ rosterPlan.Unambiguous ∧ rosterIdentity.Named rosterHeap ∧
    ∃ query found k, compile ⟨[teamEntity, playerEntity]⟩ .postgres rosterPlan = .ok query ∧
      records query.layout rosterPages ⟨rosterHeap, rosterIdentity, [], []⟩ = .ok found k ∧
      (k.heap.get ⟨0⟩).collection "members" = .ok [⟨1⟩, ⟨3⟩] ∧ (k.heap.get ⟨2⟩).collection "members" = .ok [] := by
  have named : rosterIdentity.Named rosterHeap := fun key r member => by
    cases List.mem_singleton.mp member
    exact ⟨Nat.zero_lt_one, rfl⟩
  have compiled : compile ⟨[teamEntity, playerEntity]⟩ .postgres rosterPlan = .ok ⟨_, rosterLayout⟩ := rfl
  obtain ⟨found, materialized⟩ := records_rosterPages
  have collects := collection_records (rfl : Registry.build rosterDefinitions = .ok ⟨[teamEntity, playerEntity]⟩)
    rosterPlan_registered (List.forall_mem_singleton.mpr rfl) rosterPlan_unambiguous compiled named materialized
    (a := membersAssociation) rfl
  refine ⟨rfl, rosterPlan_registered, rosterPlan_unambiguous, named, _, _, _, compiled, materialized, ?_, ?_⟩
  · have members := (collects ⟨0⟩).2 (by decide) ⟨_, List.mem_cons_self, rfl, by decide +kernel⟩
    exact members.trans (congrArg Except.ok (by decide +kernel))
  · have members := (collects ⟨2⟩).2 (by decide) ⟨_, List.mem_cons_of_mem _ List.mem_cons_self, rfl, by decide +kernel⟩
    exact members.trans (congrArg Except.ok (by decide +kernel))

end EntityMapper
