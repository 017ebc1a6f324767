import EntityMapper.Proofs.Action
import EntityMapper.Proofs.Compile.FromClauses
import EntityMapper.Proofs.Compile.Layouts
import EntityMapper.Session.Hydration

namespace EntityMapper

/-- The positions among the columns of an entity that an instance is read from: its key, its fields and its foreign
keys. -/
def Entity.positions (e : Entity) : List Nat :=
  (e.key : Nat) :: List.range e.fields.length ++ e.associations.filterMap fun a => e.foreignKeyOffset? a.name

theorem Entity.positions_lt (e : Entity) : ∀ i ∈ e.positions, i < e.columnCount := by
  intro i member
  have fields : e.fields.length ≤ e.columnCount := Nat.le_add_right _ _
  rcases List.mem_append.mp member with own | foreign
  · rcases List.mem_cons.mp own with key | field
    · exact key ▸ Nat.lt_of_lt_of_le e.key.isLt fields
    · exact Nat.lt_of_lt_of_le (List.mem_range.mp field) fields
  · obtain ⟨a, _, offset⟩ := List.mem_filterMap.mp foreign
    obtain ⟨position, found, rfl⟩ := Option.map_eq_some_iff.mp offset
    have bound := (List.findIdx?_eq_some_iff_findIdx_eq.mp found).1
    exact Nat.add_lt_add_left bound e.fields.length

namespace Hydration

/-- Why a guarded run stops: for an error of the run itself, or for a read outside of a row, or at a fetched entity
whose owner was never looked for. -/
inductive Halt where
  | refused (e : Error)
  | outside
  | ownerless

/-- Hydration that looks at every range and at every position before it reads from them. -/
abbrev GuardedM := EStateM Halt Hydration

namespace Guarded

variable {α β : Type}

def unguarded (m : HydrationM α) : GuardedM α := m.adaptExcept .refused

def slice (row : List Value) (range : Nat × Nat) : GuardedM (List Value) :=
  if range.1 + range.2 ≤ row.length then pure (within row range) else throw .outside

def cell (columns : List Value) (position : Nat) : GuardedM Value :=
  match columns[position]? with
  | some v => pure v
  | none => throw .outside

def entity (e : Entity) (columns : List Value) : GuardedM (Option Ref) :=
  if ∀ i ∈ e.positions, i < columns.length then unguarded (Hydration.entity e columns) else throw .outside

def cells (row : List Value) : List LayoutItem → Found → GuardedM (List Cell × Found)
  | [], found => pure ([], found)
  | item :: rest, found => do
    let columns ← slice row item.range
    match item.kind with
    | .scalar type => do
      let raw ← cell columns 0
      let v ← unguarded (check (type.elim (.ok raw) (·.coerce raw)))
      let (others, found) ← cells row rest found
      pure (.value v :: others, found)
    | .entity e => do
      let r ← entity e columns
      let named := item.projection.source?.elim found fun a => (a.name, r) :: found
      let (others, found) ← cells row rest named
      pure (.entity r :: others, found)

def fetches (row : List Value) : List FetchBinding → Found → GuardedM Unit
  | [], _ => pure ()
  | b :: rest, found => do
    let columns ← slice row b.range
    let target ← entity b.target.entity columns
    match found.lookup b.owner with
    | none => throw .ownerless
    | some none => pure ()
    | some (some owner) => unguarded (attach owner b.association target)
    fetches row rest ((b.target.name, target) :: found)

def record (layout : Layout) (row : List Value) : GuardedM Record := do
  if row.length < layout.width then throw (.refused (.execution (.shortRow row.length layout.width)))
  else do
    let (items, found) ← cells row layout.items []
    fetches row layout.fetches found
    pure (match layout.shape with
      | .tuple => .tuple ⟨layout.items.map (·.projection), items⟩
      | .scalar | .entity => .cell (items.getLast?.getD (.value .null)))

def recordsOf (layout : Layout) : List (List Value) → GuardedM (List Record)
  | [] => pure []
  | row :: rest => do
    let r ← record layout row
    let others ← recordsOf layout rest
    pure (r :: others)

def records (layout : Layout) (rows : List (List Value)) : GuardedM (List Record) := do
  let found ← recordsOf layout rows
  let h ← get
  unguarded (registerAll h.staged)
  pure found

theorem unguarded_pure (a : α) : unguarded (pure a) = pure a := rfl

theorem unguarded_bind (m : HydrationM α) (f : α → HydrationM β) :
    unguarded (m >>= f) = unguarded m >>= fun a => unguarded (f a) := by
  funext h
  simp only [unguarded, EStateM.adaptExcept, bind_run]
  cases m h with
  | ok a after => rfl
  | error e after => rfl

/-- A guarded run goes on as the run does when it does so after each of the results that the run can have. -/
theorem bind_congr {m : HydrationM α} {f : α → HydrationM β} {g : α → GuardedM β}
    (next : ∀ h a after, m h = .ok a after → g a = unguarded (f a)) : (unguarded m >>= g) = unguarded (m >>= f) := by
  rw [unguarded_bind]
  funext h
  simp only [unguarded, EStateM.adaptExcept, bind_run]
  cases run : m h with
  | ok a after =>
    simp only [next h a after run]
    rfl
  | error e after => rfl

variable {row : List Value} {width : Nat}

theorem within_take {range : Nat × Nat} (fits : range.1 + range.2 ≤ width) :
    within (row.take width) range = within row range := by
  rw [within, within, List.drop_take, List.take_take, Nat.min_eq_left (by omega)]

theorem slice_eq {range : Nat × Nat} (fits : range.1 + range.2 ≤ width) (long : width ≤ row.length) :
    slice (row.take width) range = pure (within row range) := by
  have inside : range.1 + range.2 ≤ (row.take width).length := by
    rw [List.length_take]
    omega
  rw [slice, if_pos inside, within_take fits]

theorem length_within {range : Nat × Nat} (fits : range.1 + range.2 ≤ row.length) :
    (within row range).length = range.2 := by
  rw [within, List.length_take, List.length_drop]
  omega

theorem entity_eq {e : Entity} {columns : List Value} (length : columns.length = e.columnCount) :
    entity e columns = unguarded (Hydration.entity e columns) :=
  if_pos fun i member => length ▸ e.positions_lt i member

/-- Items that lie in the first columns of a row are read as they are without guards, and without the other columns. -/
theorem cells_eq (long : width ≤ row.length) {items : List LayoutItem} {start stop : Nat}
    (ranges : Consecutive start (items.map LayoutItem.range) stop) (fits : stop ≤ width) (found : Found) :
    cells (row.take width) items found = unguarded (Hydration.cells row items found) := by
  induction items generalizing start found with
  | nil => rfl
  | cons item rest ih =>
    obtain ⟨atStart, later⟩ := ranges
    have inside : item.range.1 + item.range.2 ≤ width := by
      have bound := later.le
      change item.offset + item.width ≤ width
      change item.offset = start at atStart
      change start + item.width ≤ stop at bound
      omega
    have own : item.range.1 + item.range.2 ≤ row.length := Nat.le_trans inside long
    unfold cells Hydration.cells
    rw [slice_eq inside long, pure_bind]
    cases kind : item.kind with
    | scalar type =>
      have width1 : item.range = (item.offset, 1) := by
        rw [LayoutItem.range, LayoutItem.width, kind]
        rfl
      have read : cell (within row item.range) 0 = pure (row.getD item.offset .null) := by
        rw [width1] at own ⊢
        have bound : item.offset < row.length := own
        simp only [cell, within, List.getElem?_take_of_lt Nat.one_pos, List.getElem?_drop, Nat.add_zero,
          List.getElem?_eq_getElem bound, List.getD_eq_getElem?_getD, Option.getD_some]
      simp only [read, pure_bind, unguarded_bind, unguarded_pure, ih later]
    | entity e =>
      have length : (within row item.range).length = e.columnCount := by
        rw [length_within own, LayoutItem.range, LayoutItem.width, kind]
        rfl
      simp only [entity_eq length, unguarded_bind, unguarded_pure, ih later]
      rfl

/-- Every selected entity is looked up, and what was found before still is. -/
theorem cells_names {items : List LayoutItem} (kinds : ∀ item ∈ items, item.kind = item.projection.kind) (found : Found) :
    Yields (fun _ => True) (Hydration.cells row items found) fun result _ =>
      (∀ name, (found.lookup name).isSome → (result.2.lookup name).isSome) ∧
        ∀ a ∈ items.filterMap (·.projection.source?), (result.2.lookup a.name).isSome := by
  induction items generalizing found with
  | nil =>
    refine .pure fun _ _ => ⟨fun _ known => known, fun _ none => absurd none List.not_mem_nil⟩
  | cons item rest ih =>
    obtain ⟨own, others⟩ := List.forall_mem_cons.mp kinds
    unfold Hydration.cells
    cases projection : item.projection with
    | expr e =>
      have kind : item.kind = .scalar e.dataType? := by rw [own, projection]; rfl
      have none : (item :: rest).filterMap (·.projection.source?) = rest.filterMap (·.projection.source?) :=
        List.filterMap_cons_none (by rw [projection]; rfl)
      rw [kind, none]
      refine .bind (.trivial _) fun _ => .bind (ih others found) fun result => .pure fun _ kept => kept
    | entity a =>
      have kind : item.kind = .entity a.entity := by rw [own, projection]; rfl
      have some : (item :: rest).filterMap (·.projection.source?) = a :: rest.filterMap (·.projection.source?) :=
        List.filterMap_cons_some (by rw [projection]; rfl)
      rw [kind, some]
      refine .bind (.trivial _) fun r => .bind (ih others ((a.name, r) :: found)) fun result => .pure fun _ kept => ?_
      obtain ⟨known, selected⟩ := kept
      have first (name : String) (before : name = a.name ∨ (found.lookup name).isSome) :
          (((a.name, r) :: found).lookup name).isSome := by
        rw [List.lookup_cons]
        cases same : name == a.name with
        | true => rfl
        | false => exact before.resolve_left (ne_of_beq_false same)
      exact ⟨fun name before => known name (first name (.inr before)),
        List.forall_mem_cons.mpr ⟨known a.name (first a.name (.inl rfl)), selected⟩⟩

/-- Fetched entities that lie in the first columns of a row, each behind its owner, are read as they are without guards. -/
theorem fetches_eq (long : width ≤ row.length) {bs : List FetchBinding} {start stop : Nat}
    (ranges : Consecutive start (bs.map FetchBinding.range) stop) (fits : stop ≤ width) {found : Found}
    (owners : ∀ before b after, bs = before ++ b :: after →
      (found.lookup b.owner).isSome ∨ ∃ earlier ∈ before, earlier.target.name = b.owner) :
    fetches (row.take width) bs found = unguarded (Hydration.fetches row bs found) := by
  induction bs generalizing start found with
  | nil => rfl
  | cons b rest ih =>
    obtain ⟨atStart, later⟩ := ranges
    have inside : b.range.1 + b.range.2 ≤ width := by
      have bound := later.le
      change b.offset + b.width ≤ width
      change b.offset = start at atStart
      change start + b.width ≤ stop at bound
      omega
    have own : b.range.1 + b.range.2 ≤ row.length := Nat.le_trans inside long
    have length : (within row b.range).length = b.target.entity.columnCount := length_within own
    have known : (found.lookup b.owner).isSome := by
      rcases owners [] b rest rfl with known | ⟨_, none, _⟩
      · exact known
      · exact absurd none List.not_mem_nil
    have next (target : Option Ref) : fetches (row.take width) rest ((b.target.name, target) :: found) =
        unguarded (Hydration.fetches row rest ((b.target.name, target) :: found)) := by
      refine ih later fun before other after split => ?_
      rw [List.lookup_cons]
      cases same : other.owner == b.target.name with
      | true => exact .inl rfl
      | false =>
        refine (owners (b :: before) other after (by rw [split]; rfl)).imp_right ?_
        rintro ⟨earlier, member, target⟩
        rcases List.mem_cons.mp member with rfl | listed
        · exact absurd target.symm (ne_of_beq_false same)
        · exact ⟨earlier, listed, target⟩
    unfold fetches Hydration.fetches
    rw [slice_eq inside long, pure_bind, entity_eq length]
    refine bind_congr fun _ target _ _ => ?_
    obtain ⟨looked, found⟩ := Option.isSome_iff_exists.mp known
    rw [found]
    cases looked with
    | none => exact next target
    | some owner => simp only [unguarded_bind, next]

variable {layout : Layout}

/-- A row is read inside of the layout's columns, and every fetched entity finds its owner. -/
theorem record_eq (sound : layout.Sound) (cut : width = row.length ∨ width = layout.width) :
    record layout (row.take width) = unguarded (Hydration.record layout row) := by
  obtain ⟨visible, items, fetched⟩ := sound.ranges
  unfold record Hydration.record
  by_cases short : row.length < layout.width
  · have whole : row.take width = row := List.take_of_length_le (by omega)
    rw [whole, if_pos short, if_pos short]
    rfl
  · have bound : layout.width ≤ width := by omega
    have long : width ≤ row.length := by omega
    have left : ¬(row.take width).length < layout.width := by
      rw [List.length_take]
      omega
    rw [if_neg short, if_neg left, cells_eq long items (Nat.le_trans fetched.le bound)]
    refine bind_congr fun h result after run => ?_
    obtain ⟨cells, found⟩ := result
    have selected := (cells_names sound.kinds [] h _ after True.intro run).2
    have owners : ∀ before b after, layout.fetches = before ++ b :: after →
        (found.lookup b.owner).isSome ∨ ∃ earlier ∈ before, earlier.target.name = b.owner := by
      intro before b after split
      refine (sound.owners before b after split).imp_left fun listed => ?_
      obtain ⟨a, member, same⟩ := List.mem_map.mp listed
      exact same ▸ selected a member
    dsimp only
    rw [fetches_eq long fetched bound owners, unguarded_bind]
    rfl

theorem recordsOf_eq (sound : layout.Sound) {cut : List Value → Nat}
    (cuts : ∀ row, cut row = row.length ∨ cut row = layout.width) (rows : List (List Value)) :
    recordsOf layout (rows.map fun row => row.take (cut row)) = unguarded (Hydration.recordsOf layout rows) := by
  induction rows with
  | nil => rfl
  | cons row rest ih =>
    rw [List.map_cons, recordsOf, Hydration.recordsOf, record_eq sound (cuts row), ih]
    simp only [unguarded_bind, unguarded_pure]

theorem records_eq (sound : layout.Sound) {cut : List Value → Nat}
    (cuts : ∀ row, cut row = row.length ∨ cut row = layout.width) (rows : List (List Value)) :
    records layout (rows.map fun row => row.take (cut row)) = unguarded (Hydration.records layout rows) := by
  rw [records, Hydration.records, recordsOf_eq sound cuts rows]
  simp only [unguarded_bind, unguarded_pure]
  rfl

end Guarded

/-- A row that ends too early is refused, whatever the rows before it gave. -/
theorem records_short {layout : Layout} {before after : List (List Value)} {row : List Value} {h k : Hydration}
    {found : List Record} (read : recordsOf layout before h = .ok found k) (short : row.length < layout.width) :
    records layout (before ++ row :: after) h = .error (.execution (.shortRow row.length layout.width)) k := by
  have refused : recordsOf layout (before ++ row :: after) h =
      .error (.execution (.shortRow row.length layout.width)) k := by
    induction before generalizing h found with
    | nil =>
      cases read
      rw [List.nil_append, recordsOf, bind_run, record, if_pos short]
      rfl
    | cons first rest ih =>
      rw [recordsOf] at read
      obtain ⟨r, middle, own, read⟩ := bind_ok read
      obtain ⟨others, last, later, read⟩ := bind_ok read
      cases read
      rw [List.cons_append, recordsOf, bind_run, own]
      simp only [bind_run, ih later]
  rw [records, bind_run, refused]

/-- Rows are read for a layout without a read outside of a row or of the layout's columns and without a fetched entity
whose owner is not known; and rows that end too early are refused. -/
structure ReadsInside (layout : Layout) : Prop where
  guarded : ∀ rows, Guarded.records layout rows = Guarded.unguarded (records layout rows)
  cut : ∀ rows : List (List Value),
    Guarded.records layout (rows.map (·.take layout.width)) = Guarded.unguarded (records layout rows)
  short : ∀ before row after h found k, recordsOf layout before h = .ok found k → row.length < layout.width →
    records layout (before ++ row :: after) h = .error (.execution (.shortRow row.length layout.width)) k

theorem readsInside {layout : Layout} (sound : layout.Sound) : ReadsInside layout := by
  refine ⟨fun rows => ?_, fun rows => ?_, fun before row after h found k => records_short⟩
  · have whole := Guarded.records_eq sound (fun row => .inl (rfl : row.length = row.length)) rows
    simpa only [List.take_length, List.map_id'] using whole
  · exact Guarded.records_eq sound (fun _ => .inr rfl) rows

end Hydration

/-- The select list of a compiled query, its layout and the hydration of its rows agree: the layout lies over the select
list without a gap, and rows are read inside of it. -/
theorem compile_layout {registry : Registry} {d : Dialect} {p : Plan} {query : CompiledQuery}
    (run : compile registry d p = .ok query) :
    ∃ s, p.resolve registry = .ok s ∧ query.statement = .ofTokens d
        (words (if s.distinct then ["SELECT", "DISTINCT"] else ["SELECT"]) ++ [.space] ++ joined comma (s.selectList d) ++
          s.bodyTokens d ++ s.endTokens d) ∧
      query.layout.Sound ∧ query.layout.Covers d s ∧ Hydration.ReadsInside query.layout := by
  have sound := Layout.sound_of_compile run
  obtain ⟨s, resolved, run⟩ := Except.bind_eq_ok.mp run
  cases run
  obtain ⟨scope, r⟩ := Select.ofPlan_eq_ok.mp resolved
  have listed : (s.selectList d).isEmpty = false := by
    rw [List.isEmpty_eq_false_iff, Select.selectList]
    exact List.append_ne_nil_of_left_ne_nil (r.outputColumns_ne_nil d (by decide)) _
  refine ⟨s, resolved, ?_, sound, r.layout_covers d (by decide), Hydration.readsInside sound⟩
  rw [s.tokens_eq d false, Select.headTokens, listed, if_neg Bool.false_ne_true, aliasedColumns_false]

/-- Tasks together with their projects and the clients of these. -/
def tasksFetched : Plan :=
  let project : Alias := ⟨"project", (tracker.find? "Project").getD default⟩
  let client : Alias := ⟨"client", (tracker.find? "Client").getD default⟩
  { siblingTasks with
    joins := [⟨.left, project, ((taskAs "task").association tracker "parent").toOption, none, true⟩,
      ⟨.left, client, (project.association tracker "parent").toOption, none, true⟩] }

theorem compile_layout_tasksFetched :
    ∃ query s, compile tracker .sqlite tasksFetched = .ok query ∧ tasksFetched.resolve tracker = .ok s ∧
      query.layout.items.map LayoutItem.range = [(0, 3), (3, 1)] ∧
      query.layout.fetches.map FetchBinding.range = [(4, 3), (7, 2)] ∧
      query.layout.fetches.map (·.owner) = ["task", "project"] ∧ (s.selectList .sqlite).length = 9 ∧
      query.layout.Sound ∧ query.layout.Covers .sqlite s ∧ Hydration.ReadsInside query.layout := by
  have compiled : compile tracker .sqlite tasksFetched = .ok _ := rfl
  obtain ⟨s, resolved, _, sound, covers, reads⟩ := compile_layout compiled
  refine ⟨_, s, compiled, resolved, rfl, rfl, rfl, ?_, sound, covers, reads⟩
  rw [← covers.width]
  rfl

end EntityMapper
