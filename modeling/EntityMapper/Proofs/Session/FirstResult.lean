import EntityMapper.Proofs.Session.LateRows
import EntityMapper.Proofs.Session.Results
import EntityMapper.Proofs.Session.RowListings

namespace EntityMapper

/-- Collections gain only instances that they do not have, behind the ones that they have. -/
def Instance.Lengthens (i j : Instance) : Prop :=
  ∀ n items, i.stateAt n = .many items → ∃ more, j.stateAt n = .many (items ++ more) ∧ ∀ item ∈ more, item ∉ items

namespace Instance

theorem Lengthens.of_stateAt {i j : Instance} (same : ∀ n items, i.stateAt n = .many items → j.stateAt n = .many items) :
    i.Lengthens j :=
  fun n items collects => ⟨[], by rw [List.append_nil, same n items collects], by simp⟩

theorem Lengthens.refl (i : Instance) : i.Lengthens i := .of_stateAt fun _ _ same => same

theorem Lengthens.trans {i j k : Instance} (first : i.Lengthens j) (second : j.Lengthens k) : i.Lengthens k := by
  intro n items collects
  obtain ⟨more, middle, fresh⟩ := first n items collects
  obtain ⟨others, last, later⟩ := second n _ middle
  refine ⟨more ++ others, by rw [last, List.append_assoc], fun item member => ?_⟩
  rcases List.mem_append.mp member with early | late
  · exact fresh item early
  · exact fun old => later item late (List.mem_append_left more old)

theorem lengthens_fill (i : Instance) (index : Nat) (state : AssociationState) : i.Lengthens (i.fill index state) :=
  .of_stateAt fun n items collects => by rw [stateAt_fill_of_loaded (by rw [collects]; rfl), collects]

theorem lengthens_addItem (i : Instance) (index : Nat) (item : Ref) : i.Lengthens (i.addItem index item) := by
  intro n items collects
  by_cases own : n = index
  · subst own
    rw [stateAt_addItem_self collects]
    by_cases member : item ∈ items
    · exact ⟨[], by rw [if_pos member, List.append_nil], by simp⟩
    · exact ⟨[item], by rw [if_neg member], by simpa using member⟩
  · exact ⟨[], by rw [stateAt_addItem own, collects, List.append_nil], by simp⟩

end Instance

namespace Hydration

def Lengthens (h k : Hydration) : Prop := ∀ r, (h.heap.get r).Lengthens (k.heap.get r)

instance : IsPreorder Hydration Lengthens where
  refl _ _ := .refl _
  trans _ _ _ first second r := (first r).trans (second r)

theorem lengthens_modifyInstance (r : Ref) {change : Instance → Instance}
    (lengthens : ∀ i, Instance.Lengthens i (change i)) : Respects Lengthens (modifyInstance r change) :=
  .modify fun h => Heap.get_modify_related Instance.Lengthens.refl h.heap r (lengthens _)

theorem lengthens_entity (e : Entity) (columns : List Value) : Respects Lengthens (entity e columns) := by
  intro h r
  by_cases held : h.heap.Holds r
  · have spares (n : Nat) := (spares_entity (i := n) e columns held).slot
    exact .of_stateAt fun n items collects => (spares n).trans collects
  · intro n items collects
    rw [Heap.get_of_not_holds held] at collects
    cases collects

/-- Rows never take an instance out of a collection, nor do they change the order. -/
theorem lengthens_recordsOf (layout : Layout) (rows : List (List Value)) :
    Respects Lengthens (recordsOf layout rows) := by
  refine respects_recordsOf_of lengthens_entity ⟨fun r index state _ => ?_, fun r index item => ?_, ?_⟩ layout rows
  · exact lengthens_modifyInstance r fun i => i.lengthens_fill index state
  · exact lengthens_modifyInstance r fun i => i.lengthens_addItem index item
  · exact fun h _ => refl_of Lengthens h

/-- Rows add an instance to a collection that does not have it. -/
def GainsInRows (layout : Layout) (rows : List (List Value)) (h : Hydration) (r : Ref) (n : Nat) : Prop :=
  ∃ item, added (Attaches layout rows h) r n item ∧ item ∉ (h.slot r n).items

/-- What further rows make of an instance: nothing but its associations differs. One that is loaded differs exactly where
it gains an instance, and one that is deferred exactly where it is loaded. -/
structure ReadsOn (layout : Layout) (rows : List (List Value)) (h : Hydration) (final : Heap) (r : Ref) : Prop where
  grown : (h.heap.get r).Grown (final.get r)
  loaded : ∀ n, (h.slot r n).isLoaded = true →
    ((final.get r).stateAt n = h.slot r n ↔ ¬GainsInRows layout rows h r n)
  deferred : ∀ n, (h.slot r n).isLoaded = false →
    ((final.get r).stateAt n = h.slot r n ↔ ¬LoadsInRows layout rows h r n)

variable {h : Hydration} {layout : Layout} {rows : List (List Value)} {r : Ref} {n : Nat}

theorem listed_recordsOf (layout : Layout) (rows : List (List Value)) (sound : h.Sound) (begun : h.Begun) :
    h.heap.Accounts (added (Attaches layout rows h)) (leaves (recordsOf layout rows) h).heap :=
  ((accumulates_recordsOf accumulates_listings layout rows h).2 sound begun).2.1

/-- What rows add to a collection is what it has in the end and did not have before. -/
theorem gainsInRows_iff (sound : h.Sound) (begun : h.Begun) : GainsInRows layout rows h r n ↔
    ∃ item ∈ ((leaves (recordsOf layout rows) h).slot r n).items, item ∉ (h.slot r n).items := by
  refine exists_congr fun item => and_congr_left fun fresh => ?_
  exact (((listed_recordsOf layout rows sound begun).listed r n item).trans (or_iff_right fresh)).symm

theorem loaded_recordsOf (sound : h.Sound) (begun : h.Begun) (held : h.heap.Holds r)
    (loaded : (h.slot r n).isLoaded = true) :
    (leaves (recordsOf layout rows) h).slot r n = h.slot r n ↔ ¬GainsInRows layout rows h r n := by
  rw [gainsInRows_iff sound begun]
  constructor
  · rintro same ⟨item, member, fresh⟩
    rw [same] at member
    exact fresh member
  · intro nothing
    cases before : h.slot r n with
    | deferred key =>
      rw [before] at loaded
      cases loaded
    | one target => exact ((listed_recordsOf layout rows sound begun).developed r held).reference n target before
    | many items =>
      -- The same members are not enough for the same collection: those that were there have to stay where they were.
      obtain ⟨more, collects, fresh⟩ := lengthens_recordsOf layout rows h r n items before
      have none : more = [] := by
        refine List.eq_nil_iff_forall_not_mem.mpr fun item member => nothing ⟨item, ?_, ?_⟩
        · rw [slot, collects]
          exact List.mem_append_right items member
        · rw [before]
          exact fresh item member
      rw [slot, collects, none, List.append_nil]

theorem deferred_recordsOf (begun : h.Begun) (deferred : (h.slot r n).isLoaded = false) :
    (leaves (recordsOf layout rows) h).slot r n = h.slot r n ↔ ¬LoadsInRows layout rows h r n := by
  have unstarted : (r, n) ∉ h.started := by
    intro started
    obtain ⟨items, collects⟩ := begun r n started
    rw [collects] at deferred
    cases deferred
  cases outcome_recordsOf layout rows (Heap.holds_of_deferred deferred) unstarted with
  | spared never spares => exact iff_of_true spares.slot never
  | loaded does _ now =>
    refine iff_of_false (fun same => ?_) (not_not_intro does)
    rw [same, deferred] at now
    cases now

theorem readsOn_recordsOf (sound : h.Sound) (begun : h.Begun) (held : h.heap.Holds r) :
    ReadsOn layout rows h (leaves (recordsOf layout rows) h).heap r where
  grown := (respects_recordsOf layout rows h).grown r held
  loaded _ loaded := loaded_recordsOf sound begun held loaded
  deferred _ deferred := deferred_recordsOf begun deferred

/-- Rows may be read in two parts, from instances under keys of their own. -/
theorem readsOn_behind {heap : Heap} {identity : IdentityMap} (keyed : identity.Keyed heap)
    {before behind : List (List Value)} {first : List Record}
    (run : recordsOf layout before ⟨heap, identity, [], []⟩ = .ok first h) (held : h.heap.Holds r) :
    ReadsOn layout behind h (leaves (recordsOf layout behind) h).heap r := by
  have sound : Sound ⟨heap, identity, [], []⟩ := ⟨staged_nil heap identity [], keyed⟩
  have start : Begun ⟨heap, identity, [], []⟩ := fun _ _ member => absurd member List.not_mem_nil
  obtain ⟨extended, listed⟩ := accumulates_recordsOf accumulates_listings layout before ⟨heap, identity, [], []⟩
  have begun := (listed sound start).1
  rw [leaves_of_ok run] at extended begun
  exact readsOn_recordsOf (sound.extends extended) begun held

theorem attachesRow_binding {row : List Value} {bindings : List FetchBinding} {found : Found} {owner : Ref}
    {a : Association} {target : Option Ref} {call : Hydration}
    (reached : AttachesRow row bindings found h owner a target call) : ∃ b ∈ bindings, b.association = a := by
  induction reached with
  | here => exact ⟨_, List.mem_cons_self, rfl⟩
  | later _ _ _ ih =>
    obtain ⟨b, member, same⟩ := ih
    exact ⟨b, List.mem_cons_of_mem _ member, same⟩

theorem attaches_binding {owner : Ref} {a : Association} {target : Option Ref} {call : Hydration}
    (reached : Attaches layout rows h owner a target call) : ∃ b ∈ layout.fetches, b.association = a := by
  induction reached with
  | here _ _ attaches => exact attachesRow_binding attaches
  | later _ _ ih => exact ih

/-- Only what is fetched to many gains instances. -/
theorem GainsInRows.many (gains : GainsInRows layout rows h r n) :
    ∃ b ∈ layout.fetches, b.association.cardinality = .many := by
  obtain ⟨item, ⟨a, call, reached, adds⟩, _⟩ := gains
  obtain ⟨b, member, rfl⟩ := attaches_binding reached
  exact ⟨b, member, adds.many⟩

theorem length_recordsOf {found : List Record} {k : Hydration} (run : recordsOf layout rows h = .ok found k) :
    found.length = rows.length := by
  induction rows generalizing h found with
  | nil =>
    cases run
    rfl
  | cons row rest ih =>
    obtain ⟨r, middle, _, run⟩ := bind_ok run
    obtain ⟨others, _, later, run⟩ := bind_ok run
    cases run
    rw [List.length_cons, List.length_cons, ih later]

/-- Rows are read as if the ones behind them were not there. -/
theorem recordsOf_append {before behind : List (List Value)} {found : List Record} {k : Hydration}
    (run : recordsOf layout (before ++ behind) h = .ok found k) :
    ∃ first middle others, recordsOf layout before h = .ok first middle ∧
      recordsOf layout behind middle = .ok others k ∧ found = first ++ others := by
  induction before generalizing h found with
  | nil => exact ⟨[], h, found, rfl, run, rfl⟩
  | cons row rest ih =>
    obtain ⟨r, next, made, run⟩ := bind_ok run
    obtain ⟨records, _, later, run⟩ := bind_ok run
    cases run
    obtain ⟨first, middle, others, atFirst, atOthers, rfl⟩ := ih later
    refine ⟨r :: first, middle, others, ?_, atOthers, rfl⟩
    unfold recordsOf
    rw [bind_run, made]
    dsimp only
    rw [bind_run, atFirst]
    rfl

/-- The record of the first row is the first record. -/
theorem head?_recordsOf {first others : List Record} {middle k : Hydration}
    (atFirst : recordsOf layout (rows.take 1) h = .ok first middle)
    (run : recordsOf layout rows h = .ok (first ++ others) k) : first.head? = (first ++ others).head? := by
  have count := length_recordsOf atFirst
  cases first with
  | cons r rest => rfl
  | nil =>
    have none : rows = [] := by simpa using count.symm
    subst none
    cases run
    rfl

end Hydration

theorem Record.head?_distinct (records : List Record) : (distinct records).head? = records.head? := by
  cases records with
  | nil => rfl
  | cons r rest => rw [distinct, distinctFrom, if_neg List.not_mem_nil, List.head?_cons, List.head?_cons]

theorem Record.head?_ite_distinct (told : Bool) (records : List Record) :
    (if told then distinct records else records).head? = records.head? := by
  split
  · exact head?_distinct records
  · rfl

/-- Another limit changes nothing about a query but the limit. -/
theorem compile_limit {registry : Registry} {d : Dialect} {p : Plan} {query : CompiledQuery}
    (compiled : compile registry d p = .ok query) (limit : Option Nat) :
    ∃ s, p.resolve registry = .ok s ∧
      compile registry d { p with limit } = .ok ⟨.ofTokens d ({ s with limit }.tokens d false), query.layout⟩ := by
  obtain ⟨s, resolved, compiled⟩ := Except.bind_eq_ok.mp compiled
  cases compiled
  obtain ⟨scope, r⟩ := Select.ofPlan_eq_ok.mp resolved
  have relimited : { p with limit }.resolve registry = .ok { s with limit } := by
    refine Select.ofPlan_eq_ok.mpr ⟨scope, ?_⟩
    cases p
    exact ⟨r.opened, r.projected, r.grouped, r.outputs, r.fetches, r.joins, r.filters, r.groups, r.havings, r.orderings,
      r.distinct, r.sources, r.generated, rfl, r.offset⟩
  refine ⟨s, resolved, ?_⟩
  unfold compile
  rw [relimited]
  rfl

/-- The first row of an answer, which is the answer to the same query for one row. -/
def RowSet.first (s : RowSet) : RowSet := { s with rows := s.rows.take 1 }

namespace Session

variable {α : Type} {decode : Record → Except Error α} {w after : Work} {p : Plan} {rows : RowSet}

theorem head?_mapM_eq_none {records : List Record} {results : List α} (decoded : records.mapM decode = .ok results) :
    results.head? = none ↔ records = [] := by
  cases records with
  | nil =>
    cases decoded
    exact iff_of_true rfl rfl
  | cons r rest =>
    rw [List.mapM_cons] at decoded
    obtain ⟨first, _, decoded⟩ := Except.bind_eq_ok.mp decoded
    obtain ⟨_, _, decoded⟩ := Except.bind_eq_ok.mp decoded
    cases decoded
    exact iff_of_false (Option.some_ne_none _) (List.cons_ne_nil r rest)

theorem fetch_of_records {records : List Record} {results : List α} (fetched : fetchRecords p w = .ok records after)
    (decoded : records.mapM decode = .ok results) : fetch decode p w = .ok results after := by
  unfold fetch
  rw [bind_run, fetched]
  dsimp only
  rw [decoded]
  rfl

/-- The first of all results is the result of the first of all records. -/
theorem fetchFirst_head {records all : List Record} {results : List α}
    (fetched : fetchRecords { p with limit := some (if p.limit = some 0 then 0 else 1) } w = .ok records after)
    (decoded : all.mapM decode = .ok results) (same : records.head? = all.head?) :
    fetchFirst decode p w = .ok results.head? after := by
  unfold fetchFirst
  rw [bind_run, fetched]
  cases all with
  | nil =>
    cases decoded
    rw [List.head?_eq_none_iff.mp same]
    rfl
  | cons r rest =>
    obtain ⟨others, rfl⟩ := List.head?_eq_some_iff.mp same
    rw [List.mapM_cons] at decoded
    obtain ⟨first, read, decoded⟩ := Except.bind_eq_ok.mp decoded
    obtain ⟨_, _, decoded⟩ := Except.bind_eq_ok.mp decoded
    cases decoded
    dsimp only
    rw [read]
    rfl

/-- All results of a query whose answer is known. -/
theorem fetch_answering (decode : Record → Except Error α) (rows : RowSet) {query : CompiledQuery}
    (compiled : compile w.registry w.dialect p = .ok query) (active : w.unit.checkActive "execute" = .ok ())
    {found : List Record} {h : Hydration}
    (run : Hydration.recordsOf query.layout rows.rows ⟨w.heap, w.identity, [], []⟩ = .ok found h) {results : List α}
    (decoded : (if p.distinct && !query.layout.fetches.isEmpty then Record.distinct found else found).mapM decode =
      .ok results) :
    ∃ after, fetch decode p (w.answering rows) = .ok results after ∧ after.heap = h.heap := by
  have read := fetch_of_records (fetchRecords_answering compiled active run) decoded
  exact ⟨_, read, rfl⟩

/-- The first result of a query whose answer is known. It is asked for with a limit of its own. -/
theorem fetchFirst_answering (decode : Record → Except Error α) (rows : RowSet) {query : CompiledQuery}
    (compiled : compile w.registry w.dialect p = .ok query) (active : w.unit.checkActive "execute" = .ok ())
    {found all : List Record} {h : Hydration}
    (run : Hydration.recordsOf query.layout rows.rows ⟨w.heap, w.identity, [], []⟩ = .ok found h) {results : List α}
    (decoded : all.mapM decode = .ok results) (same : found.head? = all.head?) :
    ∃ last s, fetchFirst decode p (w.answering rows) = .ok results.head? last ∧ last.heap = h.heap ∧
      p.resolve w.registry = .ok s ∧ last.store.calls = w.store.calls ++ [.statement (.ofTokens w.dialect
        ({ s with limit := some (if p.limit = some 0 then 0 else 1) }.tokens w.dialect false))] := by
  obtain ⟨s, resolved, relimited⟩ := compile_limit compiled (some (if p.limit = some 0 then 0 else 1))
  have fetched := fetchRecords_answering relimited active run
  exact ⟨_, s, fetchFirst_head fetched decoded (by rw [Record.head?_ite_distinct, same]), rfl, resolved, rfl⟩

end Session

/-- The instances of a session once it has materialized rows. -/
def Work.afterRows (w : Work) (layout : Layout) (rows : List (List Value)) : Hydration :=
  leaves (Hydration.recordsOf layout rows) ⟨w.heap, w.identity, [], []⟩

/-- How the first result of a plan, read from the first row, goes with what all rows give: they have the same instances,
and the states of associations differ as further rows make them, which is nowhere among loaded ones when nothing is
fetched to many. -/
structure Work.FirstResult {α : Type} (w : Work) (decode : Record → Except Error α) (p : Plan) (rows : RowSet)
    (results : List α) (after : Work) (query : CompiledQuery) (last : Work) : Prop where
  compiled : compile w.registry w.dialect p = .ok query
  result : Session.fetchFirst decode p (w.answering rows.first) = .ok results.head? last
  absent : results.head? = none ↔ rows.rows = []
  asked : ∃ s, p.resolve w.registry = .ok s ∧ last.store.calls = w.store.calls ++
    [.statement (.ofTokens w.dialect ({ s with limit := some 1 }.tokens w.dialect false))]
  held : ∀ refs, Session.Faithful decode refs → ∀ a ∈ results.head?, ∀ r ∈ refs a, last.heap.Holds r
  heap : last.heap = (w.afterRows query.layout (rows.rows.take 1)).heap
  readsOn : ∀ r, last.heap.Holds r → Hydration.ReadsOn query.layout (rows.rows.drop 1)
    (w.afterRows query.layout (rows.rows.take 1)) after.heap r
  references : (∀ b ∈ query.layout.fetches, b.association.cardinality ≠ .many) → ∀ r, last.heap.Holds r → ∀ n,
    ((last.heap.get r).stateAt n).isLoaded = true → (after.heap.get r).stateAt n = (last.heap.get r).stateAt n

/-- The instances of a result are there. -/
theorem Session.holds_of_fetchFirst {α : Type} {decode : Record → Except Error α} {refs : α → List Ref} {w last : Work}
    {p : Plan} {result : Option α} (valid : w.Valid) (faithful : Faithful decode refs)
    (run : fetchFirst decode p w = .ok result last) : ∀ a ∈ result, ∀ r ∈ refs a, last.heap.Holds r := by
  intro a found r mentioned
  have registered := yields_fetchFirst faithful p w result last valid run a found r mentioned
  unfold Work.Registered IdentityMap.contains at registered
  cases keyed : (last.heap.get r).key with
  | ok key => exact Heap.holds_of_key keyed
  | error e =>
    rw [keyed] at registered
    cases registered

/-- From a session that knows no instance yet, the first result of a plan is the first of all its results, if the store
answers the same query for one row with the first row. The instances that are there then are the same ones, and of their
loaded associations those differ that later rows add to: collections, fetched to many, whose owner has several rows. -/
theorem fetchFirst_of_fetch {α : Type} {decode : Record → Except Error α} {w after : Work} {p : Plan} {rows : RowSet}
    {results : List α} (fresh : w.identity = .empty) (limited : p.limit ≠ some 0)
    (read : Session.fetch decode p (w.answering rows) = .ok results after) :
    ∃ query last, w.FirstResult decode p rows results after query last := by
  obtain ⟨records, middle, fetched, decoded⟩ := bind_ok read
  obtain ⟨mapped, rfl⟩ := Session.check_ok decoded
  obtain ⟨query, found, k, compiled, active, run⟩ := Session.fetchRecords_ok fetched
  rw [Session.fetchRecords_answering compiled active run] at fetched
  cases fetched
  have split := run
  rw [← List.take_append_drop 1 rows.rows] at split
  obtain ⟨first, h, others, atFirst, atOthers, rfl⟩ := Hydration.recordsOf_append split
  have same := Hydration.head?_recordsOf atFirst run
  obtain ⟨last, s, result, heap, resolved, asked⟩ := Session.fetchFirst_answering decode rows.first compiled active
    atFirst mapped (by rw [Record.head?_ite_distinct, same])
  have begins : w.afterRows query.layout (rows.rows.take 1) = h := leaves_of_ok atFirst
  have valid : w.Valid := by
    unfold Work.Valid
    rw [fresh]
    exact IdentityMap.keyed_empty w.heap
  have readsOn : ∀ r, h.heap.Holds r → Hydration.ReadsOn query.layout (rows.rows.drop 1) h k.heap r := by
    rw [← leaves_of_ok atOthers]
    exact fun r held => Hydration.readsOn_behind valid atFirst held
  rw [if_neg limited] at asked
  refine ⟨query, last, compiled, result, ?_, ⟨s, resolved, asked⟩, fun refs faithful => ?_, ?_, ?_, ?_⟩
  · rw [Session.head?_mapM_eq_none mapped, ← List.head?_eq_none_iff, Record.head?_ite_distinct, List.head?_eq_none_iff,
      ← List.length_eq_zero_iff, Hydration.length_recordsOf run, List.length_eq_zero_iff]
  · exact Session.holds_of_fetchFirst (w := w.answering rows.first) valid faithful result
  · rw [begins, heap]
  · rw [begins, heap]
    exact readsOn
  · rw [heap]
    intro single r held n loaded
    refine ((readsOn r held).loaded n loaded).mpr fun gains => ?_
    obtain ⟨b, member, many⟩ := gains.many
    exact single b member many

namespace Hydration

/-- The teams with their players. -/
def rosterPlan : Plan :=
  { Plan.ofEntity ⟨"team", teamEntity⟩ with
    joins := [⟨.left, ⟨"player", playerEntity⟩, some ⟨⟨"team", teamEntity⟩, [], membersAssociation, playerEntity⟩, none,
      true⟩] }

def rosterWork : Work := .begun ⟨[teamEntity, playerEntity]⟩ .postgres

def rosterColumns : List String := ["id", "id", "team_id"]

/-- Two teams with a player each. -/
def twoTeams : RowSet := ⟨rosterColumns, [[.int 1, .int 10, .int 1], [.int 2, .int 11, .int 2]]⟩

/-- One team with two players. -/
def twoPlayers : RowSet := ⟨rosterColumns, [[.int 1, .int 10, .int 1], [.int 1, .int 11, .int 1]]⟩

end Hydration

open Hydration

theorem fetchFirst_of_fetch_twoTeams : rosterWork.identity = .empty ∧ rosterPlan.limit ≠ some 0 ∧
    ∃ after query last, Session.fetch Record.toEntity rosterPlan (rosterWork.answering twoTeams) =
      .ok [⟨0⟩, ⟨2⟩] after ∧
      rosterWork.FirstResult Record.toEntity rosterPlan twoTeams [⟨0⟩, ⟨2⟩] after query last := by
  have compiled : compile rosterWork.registry rosterWork.dialect rosterPlan = .ok ⟨_, rosterLayout⟩ := rfl
  obtain ⟨after, read, _⟩ := Session.fetch_answering Record.toEntity twoTeams compiled rfl rfl rfl
  have limited : rosterPlan.limit ≠ some 0 := fun none => nomatch none
  obtain ⟨query, last, first⟩ := fetchFirst_of_fetch rfl limited read
  exact ⟨rfl, limited, after, query, last, read, first⟩

/-- The team that is read first lacks a player of the same team that is read with all the others, and both say that its
players are loaded. -/
theorem fetchFirst_lacks_player : rosterWork.identity = .empty ∧ rosterPlan.limit ≠ some 0 ∧
    ∃ after last, Session.fetch Record.toEntity rosterPlan (rosterWork.answering twoPlayers) = .ok [⟨0⟩, ⟨0⟩] after ∧
      Session.fetchFirst Record.toEntity rosterPlan (rosterWork.answering twoPlayers.first) = .ok (some ⟨0⟩) last ∧
      (last.heap.get ⟨0⟩).stateAt 0 = .many [⟨1⟩] ∧ (after.heap.get ⟨0⟩).stateAt 0 = .many [⟨1⟩, ⟨2⟩] := by
  have compiled : compile rosterWork.registry rosterWork.dialect rosterPlan = .ok ⟨_, rosterLayout⟩ := rfl
  obtain ⟨after, read, whole⟩ := Session.fetch_answering Record.toEntity twoPlayers compiled rfl rfl rfl
  obtain ⟨last, _, first, one, _⟩ :=
    Session.fetchFirst_answering Record.toEntity twoPlayers.first compiled rfl rfl rfl rfl
  refine ⟨rfl, fun none => (nomatch none), after, last, read, first, ?_, ?_⟩
  · rw [one]
    rfl
  · rw [whole]
    rfl

end EntityMapper
