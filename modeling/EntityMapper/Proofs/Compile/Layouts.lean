import EntityMapper.Proofs.Compile.Resolution
import EntityMapper.Proofs.Sql.Conditions

namespace EntityMapper

/-- Ranges, each a first column and a number of columns, lie one behind the other from a start to a stop. -/
def Consecutive : Nat → List (Nat × Nat) → Nat → Prop
  | start, [], stop => start = stop
  | start, (offset, width) :: rest, stop => offset = start ∧ Consecutive (start + width) rest stop

theorem Consecutive.le {start stop : Nat} {ranges : List (Nat × Nat)} (holds : Consecutive start ranges stop) :
    start ≤ stop := by
  induction ranges generalizing start with
  | nil => exact Nat.le_of_eq holds
  | cons range rest ih =>
    have later := ih holds.2
    omega

/-- The items of a list in a range of positions. -/
def within {α : Type} (items : List α) (range : Nat × Nat) : List α := (items.drop range.1).take range.2

theorem within_append {α : Type} (front items back : List α) :
    within (front ++ items ++ back) (front.length, items.length) = items := by
  rw [within, List.append_assoc, List.drop_left, List.take_left]

def LayoutItem.range (i : LayoutItem) : Nat × Nat := (i.offset, i.width)

def FetchBinding.range (b : FetchBinding) : Nat × Nat := (b.offset, b.width)

namespace Layout

/-- The aliases of the selected entities. -/
def aliases (l : Layout) : List String := (l.items.filterMap (·.projection.source?)).map (·.name)

/-- The items and behind them the fetched entities take the columns of a row one after the other. Items are read as
what they are projected as, and what is fetched belongs to a selected entity or to one that is fetched before. -/
structure Sound (l : Layout) : Prop where
  ranges : ∃ visible, Consecutive 0 (l.items.map LayoutItem.range) visible ∧
    Consecutive visible (l.fetches.map FetchBinding.range) l.width
  kinds : ∀ item ∈ l.items, item.kind = item.projection.kind
  owners : ∀ before b after, l.fetches = before ++ b :: after →
    b.owner ∈ l.aliases ∨ ∃ earlier ∈ before, earlier.target.name = b.owner

theorem consecutive_place (offset : Nat) (ps : List Projection) :
    Consecutive offset ((place offset ps).map LayoutItem.range) (offset + visibleWidth ps) := by
  induction ps generalizing offset with
  | nil => rfl
  | cons p rest ih =>
    refine ⟨rfl, ?_⟩
    have later := ih (offset + p.kind.width)
    rw [Nat.add_assoc] at later
    exact later

theorem consecutive_bind (offset : Nat) (fs : List FetchJoin) :
    Consecutive offset ((bind offset fs).map FetchBinding.range)
      (offset + (fs.map (·.target.entity.columnCount)).foldr (· + ·) 0) := by
  induction fs generalizing offset with
  | nil => rfl
  | cons f rest ih =>
    refine ⟨rfl, ?_⟩
    have later := ih (offset + f.target.entity.columnCount)
    rw [Nat.add_assoc] at later
    exact later

theorem projections_place (offset : Nat) (ps : List Projection) : (place offset ps).map (·.projection) = ps := by
  induction ps generalizing offset with
  | nil => rfl
  | cons p rest ih => rw [place, List.map_cons, ih]

theorem kinds_place (offset : Nat) (ps : List Projection) :
    ∀ item ∈ place offset ps, item.kind = item.projection.kind := by
  induction ps generalizing offset with
  | nil => exact fun _ none => absurd none List.not_mem_nil
  | cons p rest ih => exact List.forall_mem_cons.mpr ⟨rfl, ih _⟩

theorem fetches_bind (offset : Nat) (fs : List FetchJoin) : (bind offset fs).map (·.toFetchJoin) = fs := by
  induction fs generalizing offset with
  | nil => rfl
  | cons f rest ih => rw [bind, List.map_cons, ih]

theorem aliases_ofProjections (ps : List Projection) (fs : List FetchJoin) :
    (ofProjections ps fs).aliases = (ps.filterMap (·.source?)).map (·.name) := by
  have items : (place 0 ps).filterMap (·.projection.source?) = ps.filterMap (·.source?) := by
    conv_rhs => rw [← projections_place 0 ps, List.filterMap_map]
    rfl
  rw [aliases, ofProjections, items]

end Layout

/-- What is fetched belongs to one of the owners or to what is fetched before. -/
theorem fetchJoins_owners {owners : List String} {js : List Join} {fs : List FetchJoin}
    (run : fetchJoins owners js = .ok fs) : ∀ before f after, fs = before ++ f :: after →
      f.owner ∈ owners ∨ ∃ earlier ∈ before, earlier.target.name = f.owner := by
  induction js generalizing owners fs with
  | nil =>
    cases run
    intro before f after split
    cases (List.append_eq_nil_iff.mp split.symm).2
  | cons j rest ih =>
    unfold fetchJoins at run
    split at run
    · cases run
    split at run
    · cases run
    split at run
    · cases run
    case isFalse known =>
      obtain ⟨others, later, run⟩ := Except.bind_eq_ok.mp run
      cases run
      intro before f after split
      cases before with
      | nil =>
        cases split
        simp only [Bool.not_eq_true', Bool.not_eq_false, List.contains_iff_mem] at known
        exact .inl known
      | cons first before =>
        cases split
        rcases ih later before f after rfl with member | ⟨earlier, inside, same⟩
        · rcases List.mem_cons.mp member with target | owner
          · exact .inr ⟨_, List.mem_cons_self, target.symm⟩
          · exact .inl owner
        · exact .inr ⟨earlier, List.mem_cons_of_mem _ inside, same⟩

theorem Plan.fetches_owners {p : Plan} {role : Role} {fs : List FetchJoin} (run : p.fetches role = .ok fs) :
    ∀ before f after, fs = before ++ f :: after →
      f.owner ∈ (p.projections.filterMap (·.source?)).map (·.name) ∨
        ∃ earlier ∈ before, earlier.target.name = f.owner := by
  simp only [Plan.fetches] at run
  split at run
  · cases run
    intro before f after split
    cases (List.append_eq_nil_iff.mp split.symm).2
  · split at run
    · cases run
    · cases run
    · exact fetchJoins_owners run
    · exact fetchJoins_owners run

theorem Layout.sound_ofProjections {p : Plan} {role : Role} {fs : List FetchJoin} (run : p.fetches role = .ok fs) :
    (ofProjections p.projections fs).Sound := by
  refine ⟨⟨visibleWidth p.projections, ?_, consecutive_bind _ fs⟩, kinds_place 0 p.projections, ?_⟩
  · have whole := consecutive_place 0 p.projections
    rwa [Nat.zero_add] at whole
  · intro before b after split
    have fetched := congrArg (List.map (·.toFetchJoin)) split
    have own : (ofProjections p.projections fs).fetches.map (·.toFetchJoin) = fs := fetches_bind _ fs
    rw [own, List.map_append, List.map_cons] at fetched
    rw [aliases_ofProjections]
    refine (p.fetches_owners run _ _ _ fetched).imp_right ?_
    rintro ⟨earlier, inside, same⟩
    obtain ⟨binding, among, rfl⟩ := List.mem_map.mp inside
    exact ⟨binding, among, same⟩

theorem Layout.sound_of_compile {registry : Registry} {d : Dialect} {p : Plan} {query : CompiledQuery}
    (run : compile registry d p = .ok query) : query.layout.Sound := by
  obtain ⟨s, resolved, run⟩ := Except.bind_eq_ok.mp run
  cases run
  obtain ⟨scope, r⟩ := Select.ofPlan_eq_ok.mp resolved
  obtain ⟨fetched, atFetches, fetches⟩ := r.fetches
  rw [fetches, if_neg (by decide)]
  exact Layout.sound_ofProjections atFetches

section SelectLists

variable (d : Dialect)

/-- A projection is resolved to as many columns as it is read from. -/
theorem Output.length_columns {registry : Registry} {scopes : List Scope} {p : Projection} {o : Output}
    (run : Output.ofProjection registry scopes p = .ok o) : (o.columns d).length = p.kind.width := by
  cases p with
  | expr e =>
    obtain ⟨t, _, run⟩ := Except.bind_eq_ok.mp run
    cases run
    rfl
  | entity a =>
    cases run
    rw [Output.columns, Alias.columns, List.length_map, a.entity.length_selectedColumns]
    rfl

theorem Alias.length_columns (a : Alias) : a.columns.length = a.entity.columnCount := by
  rw [Alias.columns, List.length_map, a.entity.length_selectedColumns]

/-- Every item of a layout is read from the columns that are selected for it. -/
theorem Layout.within_place {ps : List Projection} {os : List Output}
    (widths : List.Forall₂ (fun (p : Projection) (o : Output) => (o.columns d).length = p.kind.width) ps os)
    (front back : List (List Token)) :
    List.Forall₂ (fun (item : LayoutItem) (o : Output) =>
      within (front ++ outputColumns d os ++ back) item.range = o.columns d) (place front.length ps) os := by
  induction widths generalizing front with
  | nil => exact .nil
  | @cons p o ps os own _ ih =>
    refine .cons ?_ ?_
    · change within _ (front.length, p.kind.width) = _
      rw [← own, outputColumns, ← List.append_assoc, List.append_assoc]
      exact within_append front (o.columns d) _
    · have later := ih (front ++ o.columns d)
      rw [List.length_append, own, List.append_assoc front] at later
      exact later

theorem Layout.within_bind (fs : List FetchJoin) (front : List (List Token)) :
    ∀ b ∈ bind front.length fs, within (front ++ fs.flatMap (·.target.columns)) b.range = b.target.columns := by
  induction fs generalizing front with
  | nil => exact fun _ none => absurd none List.not_mem_nil
  | cons f rest ih =>
    rw [List.flatMap_cons]
    refine List.forall_mem_cons.mpr ⟨?_, ?_⟩
    · change within _ (front.length, f.target.entity.columnCount) = _
      rw [← f.target.length_columns, ← List.append_assoc]
      exact within_append front f.target.columns _
    · have later := ih (front ++ f.target.columns)
      rw [List.length_append, f.target.length_columns, List.append_assoc] at later
      exact later

theorem length_outputColumns {ps : List Projection} {os : List Output}
    (widths : List.Forall₂ (fun (p : Projection) (o : Output) => (o.columns d).length = p.kind.width) ps os) :
    (outputColumns d os).length = Layout.visibleWidth ps := by
  induction widths with
  | nil => rfl
  | cons own _ ih =>
    rw [outputColumns, List.length_append, own, ih]
    rfl

/-- Every element of a select list is an expression of its own. -/
theorem Select.operand_selectList (s : Select) : ∀ column ∈ s.selectList d, IsOperand (lexemesOf column) := by
  have entity (a : Alias) : ∀ column ∈ a.columns, IsOperand (lexemesOf column) :=
    List.forall_mem_map.mpr fun column _ => operand_columnTokens a.name column
  have outputs (os : List Output) : ∀ column ∈ outputColumns d os, IsOperand (lexemesOf column) := by
    induction os with
    | nil => exact fun _ none => absurd none List.not_mem_nil
    | cons o rest ih =>
      refine List.forall_mem_append.mpr ⟨?_, ih⟩
      cases o with
      | term t => exact List.forall_mem_singleton.mpr (operand_term d t)
      | entity a => exact entity a
  refine List.forall_mem_append.mpr ⟨outputs s.outputs, fun column member => ?_⟩
  obtain ⟨f, _, own⟩ := List.mem_flatMap.mp member
  exact entity f.target column own

end SelectLists

/-- The columns that are listed in a text, with a comma between each two. Other commas stand in parentheses. -/
inductive Enumerates : List Lexeme → List (List Lexeme) → Prop
  | last {column : List Lexeme} : IsOperand column → Enumerates column [column]
  | next {column ls : List Lexeme} {columns : List (List Lexeme)} : IsOperand column → Enumerates ls columns →
      Enumerates (column ++ .symbol "," :: ls) (column :: columns)

namespace Enumerates

variable {ls : List Lexeme} {columns others : List (List Lexeme)}

/-- The text tells its columns. -/
theorem unique (first : Enumerates ls columns) (second : Enumerates ls others) : columns = others := by
  have comma (rest : List Lexeme) : Breaks (.symbol "," :: rest) := breaks_cons (by decide) (by decide)
  have stop : Breaks [] := fun _ none => nomatch none
  induction first generalizing others with
  | last own =>
    cases second with
    | last => rfl
    | next also => cases (own.2.unique also.2 (List.append_nil _) stop (comma _)).2
  | @next column ls columns own _ ih =>
    generalize text : column ++ .symbol "," :: ls = whole at second
    cases second with
    | last also =>
      have same : column ++ .symbol "," :: ls = whole ++ [] := by rw [text, List.append_nil]
      cases (own.2.unique also.2 same (comma ls) stop).2
    | next also later =>
      obtain ⟨rfl, behind⟩ := own.2.unique also.2 text (comma _) (comma _)
      cases behind
      rw [ih later]

theorem joined {items : List (List Token)} (each : ∀ item ∈ items, IsOperand (lexemesOf item)) (some : items ≠ []) :
    Enumerates (lexemesOf (joined comma items)) (items.map lexemesOf) := by
  induction items with
  | nil => exact absurd rfl some
  | cons item rest ih =>
    obtain ⟨own, others⟩ := List.forall_mem_cons.mp each
    cases rest with
    | nil =>
      rw [joined_singleton]
      exact .last own
    | cons second rest =>
      rw [joined_cons_cons, lexemesOf_append, lexemesOf_append]
      exact .next own (ih others (List.cons_ne_nil _ _))

end Enumerates

/-- What a layout reads is what is selected for it: as many columns as the text of the select list has, each an element
of the list, for every item the columns of its output, and for every fetched entity its columns. -/
structure Layout.Covers (l : Layout) (d : Dialect) (s : Select) : Prop where
  columns : ∀ columns, Enumerates (lexemesOf (joined comma (s.selectList d))) columns ↔
    columns = (s.selectList d).map lexemesOf
  width : l.width = (s.selectList d).length
  items : List.Forall₂ (fun (item : LayoutItem) (o : Output) => within (s.selectList d) item.range = o.columns d)
    l.items s.outputs
  fetches : ∀ b ∈ l.fetches, within (s.selectList d) b.range = b.target.columns

namespace Select.Resolves

variable {registry : Registry} {outer : List Scope} {role : Role} {p : Plan} {scope : Scope} {s : Select}

theorem widths (d : Dialect) (r : Resolves registry outer role p scope s) :
    List.Forall₂ (fun (p : Projection) (o : Output) => (o.columns d).length = p.kind.width) p.projections s.outputs :=
  (Except.mapM_eq_ok.mp ((outputsOfProjections_eq _).symm.trans r.outputs)).imp fun _ _ run => Output.length_columns d run

/-- A query that does not only ask whether there are rows selects something. -/
theorem outputColumns_ne_nil (d : Dialect) (r : Resolves registry outer role p scope s) (asked : role ≠ .existence) :
    outputColumns d s.outputs ≠ [] := by
  intro none
  have length := length_outputColumns d (r.widths d)
  have projected := r.projected
  rw [none] at length
  cases listed : p.projections with
  | nil =>
    rw [listed] at projected
    unfold checkProjections at projected
    simp [asked, refusePlan] at projected
  | cons first rest =>
    have wide : 0 < first.kind.width := by
      cases first with
      | expr e => exact Nat.one_pos
      | entity a => exact Nat.lt_of_lt_of_le a.entity.key.pos (Nat.le_add_right _ _)
    rw [listed] at length
    change 0 = first.kind.width + Layout.visibleWidth rest at length
    omega

theorem layout_covers (d : Dialect) (r : Resolves registry outer role p scope s) (asked : role ≠ .existence) :
    (Layout.ofProjections p.projections s.fetches).Covers d s := by
  have outputs := length_outputColumns d (r.widths d)
  have lists := Enumerates.joined (s.operand_selectList d)
    (List.append_ne_nil_of_left_ne_nil (r.outputColumns_ne_nil d asked) _)
  refine ⟨fun columns => ⟨fun reads => reads.unique lists, fun same => same ▸ lists⟩, ?_, ?_, ?_⟩
  · rw [Select.selectList, List.length_append, outputs, List.length_flatMap]
    simp only [Alias.length_columns]
    rfl
  · exact Layout.within_place d (r.widths d) [] (s.fetches.flatMap (·.target.columns))
  · have behind := Layout.within_bind s.fetches (outputColumns d s.outputs)
    rw [outputs] at behind
    exact behind

end Select.Resolves

end EntityMapper
