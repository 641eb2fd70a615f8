import CommonSubgraph.Graph.EdgeList
import CommonSubgraph.Proofs.Graph.Insertion
import CommonSubgraph.Proofs.Text.Grammar
import Mathlib.Data.List.Forall2

/-!
# The grammar of edge lists

What the lines of an edge list look like is a grammar of its own here (`EdgeList.Line`), which does
not cut or trim anything: a line is put together from blanks, words and numerals, and a comment may
follow. Reading a line follows this grammar (`EdgeList.statement_eq_ok_iff`), so an edge list is
read if all its lines belong to it, and the first that does not is the error. Nothing can go wrong
afterwards, because the vertices asked for include the ends of all edges.
-/

namespace CommonSubgraph

namespace EdgeList

open Text

variable {line cs field : List Char} {ls : List (List Char)} {said : Statement} {n limit : Nat}

/-! ## Lines -/

/-- A line without a comment, and what it says. The numbers of vertices go up to `2 ^ 24`. -/
inductive Body : List Char → Statement → Prop
  | blank {b : List Char} (hb : Blanks b) : Body b .blank
  | vertices {b₁ b₂ b₃ count : List Char} {n : Nat} (hb₁ : Blanks b₁) (hb₂ : Blanks b₂)
      (hne : b₂ ≠ []) (hb₃ : Blanks b₃) (hn : Numeral count n) (hle : n ≤ 16777216) :
      Body (b₁ ++ "vertices".toList ++ (b₂ ++ count ++ b₃)) (.vertices n)
  | edge {b₁ b₂ b₃ first second : List Char} {s t : Nat} (hb₁ : Blanks b₁) (hb₂ : Blanks b₂)
      (hne : b₂ ≠ []) (hb₃ : Blanks b₃) (hs : Numeral first s) (ht : Numeral second t)
      (hs' : s ≤ 16777215) (ht' : t ≤ 16777215) :
      Body (b₁ ++ first ++ (b₂ ++ second ++ b₃)) (.edge s t)

/-- A line and what it says. Since no line without a comment holds a mark, a comment begins at the
first one. -/
inductive Line : List Char → Statement → Prop
  | plain {cs : List Char} {said : Statement} (h : Body cs said) : Line cs said
  | commented {cs : List Char} {said : Statement} (h : Body cs said) (comment : List Char) :
      Line (cs ++ '#' :: comment) said

/-- No blank is the mark of a comment. -/
theorem mark_not_mem_blanks (h : Blanks cs) : '#' ∉ cs := fun hm => absurd (h _ hm) (by decide)

/-- The mark of a comment is no part of a numeral. -/
theorem mark_not_mem_numeral (h : Numeral cs n) : '#' ∉ cs := fun hm =>
  absurd (h.mem hm) (by decide)

/-- A line without a comment has no mark in it. -/
theorem Body.mark_not_mem (h : Body cs said) : '#' ∉ cs := by
  cases h with
  | blank hb => exact mark_not_mem_blanks hb
  | vertices hb₁ hb₂ _ hb₃ hn _ =>
    simp only [List.mem_append, not_or]
    exact ⟨⟨mark_not_mem_blanks hb₁, by decide⟩,
      ⟨mark_not_mem_blanks hb₂, mark_not_mem_numeral hn⟩, mark_not_mem_blanks hb₃⟩
  | edge hb₁ hb₂ _ hb₃ hs ht _ _ =>
    simp only [List.mem_append, not_or]
    exact ⟨⟨mark_not_mem_blanks hb₁, mark_not_mem_numeral hs⟩,
      ⟨mark_not_mem_blanks hb₂, mark_not_mem_numeral ht⟩, mark_not_mem_blanks hb₃⟩

/-- A line is one of the grammar if what stands before its first mark is. -/
theorem line_iff : Line line said ↔ Body (before '#' line) said := by
  constructor
  · rintro (h | ⟨h, comment⟩)
    · rwa [before_eq_self h.mark_not_mem]
    · rwa [before_append_mark h.mark_not_mem]
  · intro h
    obtain hl | ⟨comment, hl⟩ := eq_before_or '#' line
    · exact hl ▸ .plain h
    · rw [hl]
      exact .commented h comment

/-! ## Reading a line -/

/-- A field is read as a number exactly if it is a numeral for it within the limit. -/
theorem number_eq_ok_iff : number limit field = .ok n ↔ Numeral field n ∧ n ≤ limit := by
  rw [← numeral?_eq_some_iff, number]
  cases numeral? field with
  | none => exact ⟨nofun, nofun⟩
  | some m =>
    rw [Option.some_inj]
    show (if limit < m then _ else _) = Except.ok n ↔ _
    split
    · next hm => exact ⟨nofun, fun h => absurd (h.1 ▸ hm) (Nat.not_lt_of_le h.2)⟩
    · next hm =>
      rw [Except.ok.injEq]
      exact ⟨fun h => ⟨h, h ▸ Nat.le_of_not_lt hm⟩, And.left⟩

/-- Two readings succeed together if the first succeeds and the second does with its value. -/
theorem bind_eq_ok_iff {ε α β : Type} {m : Except ε α} {f : α → Except ε β} {y : β} :
    (m >>= f) = .ok y ↔ ∃ x, m = .ok x ∧ f x = .ok y := by
  cases m with
  | error _ => exact ⟨nofun, nofun⟩
  | ok x =>
    constructor
    · exact fun h => ⟨x, rfl, h⟩
    · rintro ⟨x', hx, h⟩
      cases hx
      exact h

/-- The word for a number of vertices is one field. -/
theorem vertices_word : Word "vertices".toList := ⟨by decide, by simp [isBlank, blankRanges]⟩

/-- No numeral is the word for a number of vertices. -/
theorem ne_vertices_of_numeral (h : Numeral field n) : field ≠ "vertices".toList := by
  rintro rfl
  exact absurd (h.mem (List.mem_cons_self : 'v' ∈ "vertices".toList)) (by decide)

/-- What two fields say. -/
theorem pair_iff {first second : List Char} (hf : fields (significant line) = [first, second]) :
    statement line = .ok said ↔
      (∃ n, first = "vertices".toList ∧ said = .vertices n ∧ Numeral second n ∧ n ≤ 16777216) ∨
      ∃ s t, said = .edge s t ∧ Numeral first s ∧ Numeral second t ∧
        s ≤ 16777215 ∧ t ≤ 16777215 := by
  have hread : statement line =
      if first = "vertices".toList then do return .vertices (← number maxVertexCount second)
      else do
        let s ← number (maxVertexCount - 1) first
        let t ← number (maxVertexCount - 1) second
        return .edge s t := by
    rw [statement]
    simp only [hf]
  rw [hread]
  split
  -- no numeral is spelled `vertices`, so the first field tells which of the two is meant
  · next hv =>
    simp only [bind_eq_ok_iff, number_eq_ok_iff]
    constructor
    · rintro ⟨n, hn, h⟩
      cases h
      exact .inl ⟨n, hv, rfl, hn⟩
    · rintro (⟨n, -, rfl, hn⟩ | ⟨s, t, -, hs, -⟩)
      · exact ⟨n, hn, rfl⟩
      · exact absurd hv (ne_vertices_of_numeral hs)
  · next hv =>
    simp only [bind_eq_ok_iff, number_eq_ok_iff]
    constructor
    · rintro ⟨s, ⟨hs, hs'⟩, t, ⟨ht, ht'⟩, h⟩
      cases h
      exact .inr ⟨s, t, rfl, hs, ht, hs', ht'⟩
    · rintro (⟨n, h, -⟩ | ⟨s, t, rfl, hs, ht, hs', ht'⟩)
      · exact absurd h hv
      · exact ⟨s, ⟨hs, hs'⟩, t, ⟨ht, ht'⟩, rfl⟩

/-- A line is read as a statement exactly if the grammar has it say so. -/
theorem statement_eq_ok_iff : statement line = .ok said ↔ Line line said := by
  have hfields : fields (significant line) = fields (before '#' line) := fields_trim _
  rw [line_iff]
  generalize before '#' line = cs at hfields
  constructor
  · intro h
    match hf : fields (significant line) with
    | [] =>
      have hblank : said = .blank := by
        rw [statement] at h
        simp only [hf] at h
        exact (Except.ok.inj h).symm
      exact hblank ▸ .blank (fields_eq_nil_iff.mp (hfields ▸ hf))
    | [first, second] =>
      obtain ⟨b₁, b₂, b₃, rfl, -, -, hb₁, hb₂, hne, hb₃⟩ := fields_eq_pair_iff.mp (hfields ▸ hf)
      obtain ⟨n, rfl, rfl, hn, hle⟩ | ⟨s, t, rfl, hs, ht, hs', ht'⟩ := (pair_iff hf).mp h
      · exact .vertices hb₁ hb₂ hne hb₃ hn hle
      · exact .edge hb₁ hb₂ hne hb₃ hs ht hs' ht'
    | [_] | _ :: _ :: _ :: _ =>
      rw [statement] at h
      simp only [hf] at h
      cases h
  · intro h
    cases h with
    | blank hb =>
      rw [statement, hfields, fields_blanks hb]
    | vertices hb₁ hb₂ hne hb₃ hn hle =>
      have hf := fields_eq_pair_iff.mpr ⟨_, _, _, rfl, vertices_word, hn.word, hb₁, hb₂, hne, hb₃⟩
      exact (pair_iff (hfields.trans hf)).mpr (.inl ⟨_, rfl, rfl, hn, hle⟩)
    | edge hb₁ hb₂ hne hb₃ hs ht hs' ht' =>
      have hf := fields_eq_pair_iff.mpr ⟨_, _, _, rfl, hs.word, ht.word, hb₁, hb₂, hne, hb₃⟩
      exact (pair_iff (hfields.trans hf)).mpr (.inr ⟨_, _, rfl, hs, ht, hs', ht'⟩)

/-! ## Reading all lines -/

/-- The line at position `k` is the first that is not a line of an edge list. -/
structure FirstFaulty (ls : List (List Char)) (k : Nat) : Prop where
  faulty : ∃ line, ls[k]? = some line ∧ ∀ said, ¬ Line line said
  good : ∀ line ∈ ls.take k, ∃ said, Line line said

/-- Lines are read one after the other, and a line that cannot be read is named by its number. -/
theorem statements_cons (n : Nat) (line : List Char) (rest : List (List Char)) :
    statements n (line :: rest) = match statement line with
      | .error cause => .error (.malformedLine n cause)
      | .ok said => statements (n + 1) rest >>= fun more => .ok (said :: more) := by
  rw [statements]
  cases statement line <;> rfl

/-- If all lines are read, each says what was read. -/
theorem forall₂_of_statements {saids : List Statement} (h : statements n ls = .ok saids) :
    List.Forall₂ Line ls saids := by
  induction ls generalizing n saids with
  | nil =>
    cases h
    exact .nil
  | cons line rest ih =>
    rw [statements_cons] at h
    cases hl : statement line with
    | error _ =>
      rw [hl] at h
      cases h
    | ok said =>
      rw [hl] at h
      obtain ⟨more, hmore, hcons⟩ := bind_eq_ok_iff.mp h
      cases hcons
      exact .cons (statement_eq_ok_iff.mp hl) (ih hmore)

/-- Every line that was read says something. -/
theorem exists_said {saids : List Statement} (h : List.Forall₂ Line ls saids) :
    ∀ line ∈ ls, ∃ said, Line line said :=
  ((List.forall₂_and_left ls saids).mp (h.imp fun _ said hl => ⟨⟨said, hl⟩, hl⟩)).1

/-- Every statement that was read is said by some line. -/
theorem exists_line {saids : List Statement} (h : List.Forall₂ Line ls saids) :
    ∀ said ∈ saids, ∃ line, Line line said := by
  have hflip : List.Forall₂ (flip Line) saids ls := List.Forall₂.flip h
  exact ((List.forall₂_and_left saids ls).mp (hflip.imp fun _ line hl => ⟨⟨line, hl⟩, hl⟩)).1

/-- If the lines cannot be read, the error names the first faulty one. -/
theorem firstFaulty_of_statements {e : GraphError} (h : statements n ls = .error e) :
    ∃ k cause, e = .malformedLine (n + k) cause ∧ FirstFaulty ls k := by
  -- on the lines, with the number of the first one rising
  induction ls generalizing n with
  | nil => cases h
  | cons line rest ih =>
    rw [statements_cons] at h
    cases hl : statement line with
    | error cause =>
      rw [hl] at h
      cases h
      refine ⟨0, cause, rfl, ⟨line, rfl, fun said hsaid => ?_⟩, nofun⟩
      rw [statement_eq_ok_iff.mpr hsaid] at hl
      cases hl
    | ok said =>
      rw [hl] at h
      cases hrest : statements (n + 1) rest with
      | ok more =>
        rw [hrest] at h
        cases h
      | error e' =>
        rw [hrest] at h
        cases h
        obtain ⟨k, cause, rfl, hk⟩ := ih hrest
        refine ⟨k + 1, cause, by rw [Nat.add_assoc, Nat.add_comm 1], hk.faulty, fun l hl' => ?_⟩
        obtain rfl | hl' := List.mem_cons.mp hl'
        · exact ⟨said, statement_eq_ok_iff.mp hl⟩
        · exact hk.good l hl'

/-! ## Building the graph -/

/-- The numbers of vertices that a statement asks for. -/
def Statement.asks : Statement → List Nat
  | blank => []
  | vertices n => [n]
  | edge s t => [s + 1, t + 1]

/-- The ends of the edge that a statement asks for. -/
def Statement.joins : Statement → List (Nat × Nat)
  | edge s t => [(s, t)]
  | _ => []

/-- The edges that are built are those that the statements ask for. -/
theorem filterMap_edge?_eq (saids : List Statement) :
    saids.filterMap Statement.edge? = saids.flatMap Statement.joins := by
  have hone (x : Statement) : x.edge?.toList = x.joins := by cases x <;> rfl
  rw [List.filterMap_eq_flatMap_toList]
  simp only [hone]

/-- The graph gets as many vertices as the largest of the numbers asked for. -/
theorem vertexCount_eq (saids : List Statement) :
    vertexCount saids = (saids.flatMap Statement.asks).max?.getD 0 := by
  have hstep (n : Nat) (x : Statement) : max n x.demand = x.asks.foldl max n := by
    cases x with
    | blank => exact Nat.max_zero n
    | vertices m => rfl
    | edge s t =>
      simp only [Statement.demand, Statement.asks, List.foldl_cons, List.foldl_nil]
      omega
  rw [← Nat.zero_max (Option.getD _ _), ← List.foldl_max, List.foldl_flatMap, vertexCount]
  simp only [hstep]

/-- No line asks for more than `2 ^ 24` vertices. -/
theorem Body.asks_le (h : Body cs said) (hn : n ∈ said.asks) : n ≤ 16777216 := by
  cases h with
  | blank => cases hn
  | vertices _ _ _ _ _ hle =>
    obtain rfl := List.mem_singleton.mp hn
    exact hle
  | edge _ _ _ _ _ _ hs ht =>
    obtain rfl | rfl : _ ∨ _ := by simpa [Statement.asks] using hn
    all_goals omega

/-- The graph has the vertices asked for and, in the order of the statements, their edges with the
value `b`. -/
structure Shows {ν ε : Type} (b : ε) (saids : List Statement) (g : Graph ν ε) : Prop where
  vertexCount_eq : g.vertexCount = (saids.flatMap Statement.asks).max?.getD 0
  edgeCount_eq : g.edgeCount = (saids.flatMap Statement.joins).length
  edge_eq : ∀ k s t, (saids.flatMap Statement.joins)[k]? = some (s, t) →
    ∃ x, g.edges[k]? = some x ∧ x.id = EdgeId.ofNat k ∧ x.source.index = s ∧
      x.target.index = t ∧ x.value = b

section

variable {saids : List Statement}

/-- No edge list asks for more vertices than allowed. -/
theorem vertexCount_le (h : ∀ x ∈ saids, ∃ line, Line line x) :
    vertexCount saids ≤ 16777216 := by
  rw [vertexCount_eq]
  cases hmax : (saids.flatMap Statement.asks).max? with
  | none => exact Nat.zero_le _
  | some n =>
    obtain ⟨x, hx, hn⟩ := List.mem_flatMap.mp (List.max?_mem hmax)
    obtain ⟨line, hline⟩ := h x hx
    exact (line_iff.mp hline).asks_le hn

/-- The ends of every edge are among the vertices asked for. -/
theorem lt_vertexCount {p : Nat × Nat} (hp : p ∈ saids.filterMap Statement.edge?) :
    p.1 < vertexCount saids ∧ p.2 < vertexCount saids := by
  obtain ⟨x, hx, he⟩ := List.mem_filterMap.mp hp
  have hasks {n : Nat} (hn : n ∈ x.asks) : n ≤ vertexCount saids := by
    rw [vertexCount_eq]
    exact List.le_max?_getD_of_mem (List.mem_flatMap.mpr ⟨x, hx, hn⟩)
  cases x with
  | blank => cases he
  | vertices _ => cases he
  | edge s t =>
    cases he
    exact ⟨hasks List.mem_cons_self, hasks (List.mem_cons_of_mem _ List.mem_cons_self)⟩

/-- The statements of lines of the grammar are never refused, and the graph built from them is the
one that they ask for. -/
theorem exists_shows {ν ε : Type} (a : ν) (b : ε) (h : ∀ x ∈ saids, ∃ line, Line line x) :
    ∃ g : Graph ν ε, Graph.ofEdges a b (vertexCount saids)
      (saids.filterMap Statement.edge?) = .ok g ∧ Shows b saids g := by
  have hcount : vertexCount saids ≤ UInt32.size :=
    Nat.le_trans (vertexCount_le h) (by decide)
  obtain ⟨g, hg, hv, hedges⟩ := Graph.exists_ofEdges a b fun p hp =>
    ⟨Nat.lt_of_le_of_lt (Nat.mod_le ..) (lt_vertexCount hp).1,
      Nat.lt_of_le_of_lt (Nat.mod_le ..) (lt_vertexCount hp).2⟩
  refine ⟨g, hg, hv.trans (vertexCount_eq saids), ?_, fun k s t hk => ?_⟩
  · rw [Graph.edgeCount, ← Array.length_toList, hedges, List.length_mapIdx, filterMap_edge?_eq]
  · rw [← filterMap_edge?_eq] at hk
    obtain ⟨hs, ht⟩ := lt_vertexCount (List.mem_of_getElem? hk)
    refine ⟨⟨EdgeId.ofNat k, VertexId.ofNat s, VertexId.ofNat t, b⟩, ?_, rfl,
      VertexId.index_ofNat (Nat.lt_of_lt_of_le hs hcount),
      VertexId.index_ofNat (Nat.lt_of_lt_of_le ht hcount), rfl⟩
    rw [← Array.getElem?_toList, hedges, List.getElem?_mapIdx, hk]
    rfl

end

end EdgeList

/-- The graph of an edge list is well-formed if there are names for all its edges. -/
theorem Graph.wellFormed_ofEdgeList {ν ε : Type} {a : ν} {b : ε} {text : String} {g : Graph ν ε}
    (h : Graph.ofEdgeList a b text = .ok g) (hedges : g.edgeCount ≤ UInt32.size) :
    g.WellFormed := by
  obtain ⟨saids, hsaids, hg⟩ := EdgeList.bind_eq_ok_iff.mp h
  have hlines := EdgeList.exists_line (EdgeList.forall₂_of_statements hsaids)
  obtain ⟨g', hg', hshows⟩ := EdgeList.exists_shows a b hlines
  obtain rfl : g' = g := Except.ok.inj (hg'.symm.trans hg)
  refine wellFormed_ofEdges (Nat.le_trans (EdgeList.vertexCount_le hlines) (by decide)) ?_ hg
  rw [EdgeList.filterMap_edge?_eq, ← hshows.edgeCount_eq]
  exact hedges

open EdgeList in
/-- An edge list is read if all its lines belong to the grammar; the graph then has the vertices and
edges they ask for. Otherwise the first line that does not belong to it is the error. -/
theorem Graph.ofEdgeList_grammar {ν ε : Type} (a : ν) (b : ε) (text : String) :
    (∀ ls, Text.Lines text.toList ls ↔ Text.lines text.toList = ls) ∧
      ((∃ g, Graph.ofEdgeList a b text = .ok g) ↔
        ∀ line ∈ Text.lines text.toList, ∃ said, Line line said) ∧
      (∀ g, Graph.ofEdgeList a b text = .ok g →
        ∃ saids, List.Forall₂ Line (Text.lines text.toList) saids ∧ Shows b saids g) ∧
      ∀ e, Graph.ofEdgeList a b text = .error e →
        ∃ k cause, e = .malformedLine (k + 1) cause ∧
          FirstFaulty (Text.lines text.toList) k := by
  -- the lines are read in turn: either all are, or one is the first that is refused
  cases hs : statements 1 (Text.lines text.toList) with
  | ok saids =>
    have hlines := forall₂_of_statements hs
    obtain ⟨g, hg, hshows⟩ := exists_shows a b (exists_line hlines)
    have hread : ofEdgeList a b text = .ok g := by
      rw [ofEdgeList, hs]
      exact hg
    refine ⟨fun ls => Text.lines_eq_iff.symm, ⟨fun _ => exists_said hlines, fun _ => ⟨g, hread⟩⟩,
      fun g' hg' => ?_, fun e he => ?_⟩
    · cases hread.symm.trans hg'
      exact ⟨saids, hlines, hshows⟩
    · cases hread.symm.trans he
  | error e =>
    obtain ⟨k, cause, rfl, hfaulty⟩ := firstFaulty_of_statements hs
    have hread : ofEdgeList a b text = .error (.malformedLine (1 + k) cause) := by
      rw [ofEdgeList, hs]
      rfl
    refine ⟨fun ls => Text.lines_eq_iff.symm, ⟨?_, fun hall => ?_⟩, fun g hg => ?_, fun e' he => ?_⟩
    · rintro ⟨g, hg⟩
      cases hread.symm.trans hg
    · obtain ⟨line, hline, hnone⟩ := hfaulty.faulty
      obtain ⟨said, hsaid⟩ := hall line (List.mem_of_getElem? hline)
      exact absurd hsaid (hnone said)
    · cases hread.symm.trans hg
    · cases hread.symm.trans he
      exact ⟨k, cause, by rw [Nat.add_comm], hfaulty⟩

/-- Comments, a line end of two characters, a blank line, a plus sign and leading zeros. -/
def EdgeList.mixed : String := "vertices 4 # or more\r\n\n\t+0 01\n2 2#2 x"

open EdgeList in
/-- A text with all the liberties of the grammar is read, and one with a letter for a number is
refused at its second line. -/
theorem Graph.ofEdgeList_grammar_mixed :
    (∃ saids, List.Forall₂ Line (Text.lines mixed.toList) saids ∧
      ∃ g : Graph Unit Unit, Graph.ofEdgeList () () mixed = .ok g ∧ Shows () saids g) ∧
      FirstFaulty (Text.lines "0 1\n1 x\n".toList) 1 := by
  constructor
  · obtain ⟨-, -, hread, -⟩ := Graph.ofEdgeList_grammar () () mixed
    have hok : (Graph.ofEdgeList () () mixed).toBool = true := by decide +kernel
    cases hg : Graph.ofEdgeList () () mixed with
    | error e =>
      rw [hg] at hok
      cases hok
    | ok g =>
      obtain ⟨saids, hlines, hshows⟩ := hread g hg
      exact ⟨saids, hlines, g, rfl, hshows⟩
  · obtain ⟨-, -, -, hfail⟩ := Graph.ofEdgeList_grammar () () "0 1\n1 x\n"
    have herror : Graph.ofEdgeList () () "0 1\n1 x\n" =
        .error (.malformedLine 2 (.notANumber "x")) := by decide +kernel
    obtain ⟨k, cause, he, hfaulty⟩ := hfail _ herror
    cases he
    exact hfaulty

end CommonSubgraph
