import MeshPath.Proofs.Build.Rearranged

/-!
# Indices fit their sets

An index leads from the elements of one set to elements of another one, and it counts them.

* `PathTree.lt_of_rel`: what an expression relates are elements of the sets at its ends.
* `PathTree.hasRows_of_eval_link`, `PathTree.exists_hasRows_of_eval`: an index that an evaluation
  gives counts the sinks of its rows.
* `PathIndex.Fits`: the bounds of an index, with what it answers out of range.
* `exists_build_link`: a link that fits its sets is built, with its rows.
* `build_fits`: every index that is built fits the sets of its expression.
-/

namespace MeshPath

open PathTree Success

/-! ## Bounds of relations -/

namespace PathTree

variable {sizes : SetId → Nat} {U : SetView → Prop} {c : Connective} {x y q : BoundVar}
  {lhs rhs z : BoundExpr} {rows : End} {i j : Nat}

/-- The sinks of an operand are elements of the set that the formula has at the end that they
share. -/
theorem lt_of_leads {q : Option BoundVar} (hU : Distinct U)
    (hzU : ∀ v ∈ (formula c x y q lhs rhs).vars, U v.set)
    (hc : (formula c x y q lhs rhs).CoherentBy keyId) {o : BoundExpr} (ho : o = lhs ∨ o = rhs)
    (hlt : ∀ e i j, o.Rel e i j → j < (o.endpoint e.other).set.size) {e : End} {a : String}
    (hlead : o.Leads e a (rows.other.pick x y).name) (h : o.Rel e i j) :
    j < (rows.other.pick x y).set.size := by
  have hsink : rows.other.pick x y ∈ x :: y :: q.toList := by
    cases rows <;> simp [End.pick, End.other]
  rw [← set_eq_of_coherent hU hzU hc hsink ho hlead.2]
  exact hlt e i j h

/-- A coherent expression that fits its sets leads to elements of the set at its other end. -/
theorem lt_of_rel (hU : RegularSets sizes U) (hz : z.WellFormed) (hzU : ∀ v ∈ z.vars, U v.set)
    (hc : z.CoherentBy keyId) (htyped : z.WellTyped) (h : z.Rel rows i j) :
    j < (z.endpoint rows.other).set.size := by
  induction z generalizing rows i j with
  | link kind source sink =>
    have hsource := hzU source (by simp [vars])
    have hsink := hzU sink (by simp [vars])
    have hlt := (Link.lt_of_rel (hU.regular _ hsource) (hU.regular _ hsink)
      (hU.distinct _ _ hsource hsink) htyped h).2
    cases rows <;> exact hlt
  | formula c x y q lhs rhs ihl ihr =>
    have hl : ∀ e i j, lhs.Rel e i j → j < (lhs.endpoint e.other).set.size := fun _ _ _ =>
      ihl hz.2.1 (fun v hv => hzU v (mem_vars_of_lhs hv)) hc.2.1 htyped.1
    have hr : ∀ e i j, rhs.Rel e i j → j < (rhs.endpoint e.other).set.size := fun _ _ _ =>
      ihr hz.2.2 (fun v hv => hzU v (mem_vars_of_rhs hv)) hc.2.2 htyped.2
    cases q with
    | none =>
      obtain ⟨le, re, hlend, hrend, -, -⟩ := operandEnds_plain hz rows
      rw [rel_plain_iff hz hlend hrend] at h
      -- Both operands lead to the sink, and one of them is enough.
      cases c with
      | and => exact lt_of_leads hU.distinct hzU hc (.inl rfl) hl hlend h.1
      | or =>
        rcases h with h | h
        · exact lt_of_leads hU.distinct hzU hc (.inl rfl) hl hlend h
        · exact lt_of_leads hU.distinct hzU hc (.inr rfl) hr hrend h
    | some q =>
      obtain ⟨ne, fe, hn, hf, -, -⟩ := operandEnds_quantified hz rows
      cases c with
      | and =>
        -- The second hop leads to the sink.
        obtain ⟨k, -, h⟩ := (rel_and_iff hz hn hf).1 h
        have hfar := (near_far_eq lhs rhs (rows.pick x y).name).imp And.right And.right
        refine lt_of_leads hU.distinct hzU hc hfar.symm ?_ hf h
        rcases hfar with heq | heq
        · rw [heq]
          exact hr
        · rw [heq]
          exact hl
      | or => exact ((rel_or_iff hz hn hf).1 h).2

/-! ## Counted rows -/

variable {options : BuildOptions} {index : PathIndex}

/-- The index of a link has the rows of the link. -/
theorem hasRows_of_eval_link (hU : RegularSets sizes U) {kind : LinkKind} {source sink : BoundVar}
    (hsource : U source.set) (hsink : U sink.set)
    (hok : (link kind source sink).eval options rows = .ok index) :
    index.HasRows (rows.pick source.set sink.set).size (kind.row source.set sink.set rows) := by
  have hsame := hU.distinct _ _ hsource hsink
  by_cases htyped : kind.WellTyped source.set sink.set
  · obtain ⟨index', hindex, hrows⟩ := Link.exists_hasRows (hU.regular _ hsource)
      (hU.regular _ hsink) hsame htyped options rows
    cases hok.symm.trans hindex
    exact hrows
  · obtain ⟨e, he⟩ := Link.exists_realize_error options hsame htyped rows
    cases hok.symm.trans he

/-- An index that an evaluation gives counts the sinks of its rows. -/
theorem exists_hasRows_of_eval (hU : RegularSets sizes U) (hz : z.WellFormed)
    (hzU : ∀ v ∈ z.vars, U v.set) (hok : z.eval options rows = .ok index) :
    ∃ n f, index.HasRows n f := by
  cases z with
  | link kind source sink =>
    exact ⟨_, _, hasRows_of_eval_link hU (hzU source (by simp [vars])) (hzU sink (by simp [vars]))
      hok⟩
  | formula c x y q lhs rhs =>
    -- The rows of a formula are made for the elements of the operand that is evaluated first.
    cases q with
    | none =>
      obtain ⟨le, re, -, -, hle, hre⟩ := operandEnds_plain hz rows
      rw [eval_combine hle hre] at hok
      obtain ⟨l, -, hok⟩ := bind_eq_ok_iff.1 hok
      obtain ⟨r, -, hok⟩ := bind_eq_ok_iff.1 hok
      cases hok
      exact ⟨_, _, PathIndex.hasRows_ofRows_map (Word.low32 l.numElements) _⟩
    | some q =>
      obtain ⟨ne, fe, -, -, hne, hfe⟩ := operandEnds_quantified hz rows
      rw [eval_eliminate hne hfe] at hok
      obtain ⟨n, -, hok⟩ := bind_eq_ok_iff.1 hok
      obtain ⟨f, -, hok⟩ := bind_eq_ok_iff.1 hok
      cases hok
      cases c with
      | and => exact ⟨_, _, PathIndex.hasRows_ofRows_map (Word.low32 n.numElements) _⟩
      | or => exact ⟨_, _, PathIndex.hasRows_ofRows_map (Word.low32 n.numElements) _⟩

/-- The expression is a link that leads from vertices to edges, read from the end `rows`. -/
def LeadsToEdges (z : BoundExpr) (rows : End) : Prop :=
  ∃ source sink, z = link .vertexToEdge source sink ∧ rows = .first ∨
    z = link .edgeToVertex source sink ∧ rows = .second

/-- From a vertex, the edges stand in ascending order. -/
theorem pairwise_row_of_leadsToEdges (hU : RegularSets sizes U) (hzU : ∀ v ∈ z.vars, U v.set)
    (hz : z.LeadsToEdges rows) (hok : z.eval options rows = .ok index) (e : Nat) :
    (index.row e).Pairwise (· ≤ ·) := by
  have hpairwise : ∀ {n : Nat} {edges vertices : SetView},
      index.HasRows n (Link.edgesAt edges vertices) → (index.row e).Pairwise (· ≤ ·) := by
    intro n edges vertices hrows
    rw [hrows.row_eq]
    split
    · exact Link.pairwise_edgesAt edges vertices e
    · exact .nil
  obtain ⟨source, sink, ⟨rfl, rfl⟩ | ⟨rfl, rfl⟩⟩ := hz
  · exact hpairwise
      (hasRows_of_eval_link hU (hzU source (by simp [vars])) (hzU sink (by simp [vars])) hok)
  · exact hpairwise
      (hasRows_of_eval_link hU (hzU source (by simp [vars])) (hzU sink (by simp [vars])) hok)

end PathTree

/-! ## Indices -/

namespace PathIndex

/-- The index leads from the elements below `sources` to elements below `sinks` and counts them
all. Any other element has an empty row, and is refused where an element has to be in range. -/
structure Fits (index : PathIndex) (sources sinks : Nat) : Prop where
  numElements_eq : index.numElements = sources
  lt_of_mem_row : ∀ {e j : Nat}, j ∈ index.row e → j < sinks
  numNeighbors_eq_sum : index.numNeighbors = ((List.range sources).map index.numNeighborsOf).sum
  row_eq_nil : ∀ {e : Nat}, sources ≤ e → index.row e = []
  neighbors?_eq : ∀ e, index.neighbors? e =
    if e < sources then .ok (index.row e) else .error (.elementOutOfRange e sources)

/-- An index fits its sets if its relation leads into the set of the sink. -/
theorem Realizes.fits {index : PathIndex} {n k sinks : Nat} {f : Nat → List Nat}
    {R : Nat → Nat → Prop} (h : index.Realizes n R) (hrows : index.HasRows k f)
    (hlt : ∀ i j, R i j → j < sinks) : index.Fits n sinks where
  numElements_eq := h.numElements_eq
  lt_of_mem_row hj := hlt _ _ (h.mem_row_iff.1 hj)
  numNeighbors_eq_sum := by rw [hrows.numNeighbors_eq_sum, h.numElements_eq]
  row_eq_nil he := List.eq_nil_iff_forall_not_mem.2 fun j hj =>
    Nat.not_lt_of_le he (h.lt_of_rel (h.mem_row_iff.1 hj))
  neighbors?_eq e := by rw [neighbors?, h.numElements_eq]

end PathIndex

namespace Builder

variable {m : Mesh} {b : Builder} {z : BoundExpr} {built : Built} {rows : End}

/-- A link that fits its sets is built from both ends, bound already or from the table. Its index
has the rows of the link. -/
theorem exists_build_link (hm : m.Reached) (hb : b.Serves m) {x : OpenExpr} {kind : LinkKind}
    {source sink : BoundVar} (hform : b.boundForm x = .ok (link kind source sink))
    (hsets : ∀ v ∈ [source, sink], m.Holds v.set ∧ v.set.size < Word.span32)
    (htyped : kind.WellTyped source.set sink.set) (rows : End) :
    ∃ built, (b.build x rows.toNat).1 = .ok built ∧
      built.index.HasRows (rows.pick source.set sink.set).size
        (kind.row source.set sink.set rows) := by
  have hcarries : m.Carries (link kind source sink) := {
    constructible := .link _ _ _
    holds := fun v hv => (hsets v hv).1
    small := fun v hv => (hsets v hv).2 }
  rw [build_eq_build_toOpen (End.ofNat?_toNat rows) hform]
  obtain ⟨built, hok⟩ := (exists_build_iff hm hb hcarries rows).2 htyped
  exact ⟨built, hok, hasRows_of_eval_link (Mesh.regularSets_of_reached hm)
    (hsets source (by simp)) (hsets sink (by simp)) (hb.eval_eq_ok hcarries hok)⟩

/-- Every index of a coherent expression fits the sets at its ends. The rows of a formula are
strictly ascending, and those that lead from vertices to edges are ascending. -/
theorem build_fits (hm : m.Reached) (hb : b.Serves m) (hz : m.Carries z)
    (hc : z.toOpen.Coherent) (hok : (b.build z.toOpen rows.toNat).1 = .ok built) :
    built.index.Fits (z.endpoint rows).set.size (z.endpoint rows.other).set.size ∧
      (z.connective?.isSome = true → ∀ e, (built.index.row e).Pairwise (· < ·)) ∧
      (z.LeadsToEdges rows → ∀ e, (built.index.row e).Pairwise (· ≤ ·)) := by
  have hsets := Mesh.regularSets_of_reached hm
  have htyped : z.WellTyped := (exists_build_iff hm hb hz rows).1 ⟨built, hok⟩
  have heval : z.eval b.options rows = .ok built.index := by
    rw [← hb.map_index_build hz, hok]
    rfl
  obtain ⟨n, f, hrows⟩ := exists_hasRows_of_eval hsets hz.wellFormed hz.regular heval
  refine ⟨(realizes_of_build hm hb hz hc hok).fits hrows fun i j hrel => ?_, ?_, ?_⟩
  · exact lt_of_rel hsets hz.wellFormed hz.regular (coherentBy_toOpen.1 hc) htyped hrel
  · exact fun hformula => pairwise_row_of_build hb hz hformula hok
  · exact fun hedges => pairwise_row_of_leadsToEdges hsets hz.regular hedges heval

/-- Two steps around the ring, after the same path from its other end. -/
theorem build_fits_ringPath :
    let z := Mesh.ringPath Mesh.forth (.star 1)
    ∃ built, (((new .standard : Builder).build z.toOpen 1).2.build z.toOpen 0).1 = .ok built ∧
      built.index.Fits 3 3 ∧ ∀ e, (built.index.row e).Pairwise (· < ·) := by
  intro z
  have hz : Mesh.ringMesh.Carries z := Mesh.carries_ringPath Mesh.forth (.star 1)
  have hb := serves_ringMesh.build hz 1
  have hm := Mesh.reached_ringMesh
  obtain ⟨built, hok⟩ := (exists_build_iff hm hb hz .first).2 (Mesh.wellTyped_ringPath rfl rfl)
  obtain ⟨hfits, hformula, -⟩ := build_fits hm hb hz (by decide) hok
  exact ⟨built, hok, hfits, hformula rfl⟩

end Builder

end MeshPath
