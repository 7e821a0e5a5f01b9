import MeshPath.Proofs.Lattice
import MeshPath.Proofs.Mesh.Reached

/-!
# Histories of a mesh

A `History` is a mesh together with what its sets have handed out and what has been added to them.
Elements are referred to by what was handed out before, in any set and at any later time.

* `MeshSet.Recorded`: a set holds what was added to it, in that order.
* `Mesh.append?`: one addition to a set, refused or not.
* `History.Step`, `History.Runs`, `History.Reached`: one call on a mesh, sequences of calls, and
  what they give from the empty mesh.
* `sound_of_reached`: references are to elements that exist, and every set holds what was added.
* `History.Intact`, `intact_of_runs`: what this says of a set, now and after any later calls.
-/

namespace MeshPath

/-! ## Recorded additions -/

namespace MeshSet

variable {sizes : SetId → Nat} {s s' : MeshSet} {log : List (ElementRef × List ElementRef)}

/-- The set holds the additions `log`: the `k`-th one is the element `k`, with the ends that were
given for it. A lattice has its elements without any addition. -/
structure Recorded (s : MeshSet) (log : List (ElementRef × List ElementRef)) : Prop where
  length_eq : log.length = if s.isLattice then 0 else s.size
  entry : ∀ {k : Nat} {r : ElementRef} {ends : List ElementRef}, log[k]? = some (r, ends) →
    r = ⟨s.id, Word.low32 k⟩ ∧ s.ends k = ends.map (·.ident)

theorem Recorded.rename (h : s.Recorded log) (name : String) : (s.rename name).Recorded log :=
  ⟨h.length_eq, h.entry⟩

/-- A set without elements, or a lattice, holds what was added without any addition. -/
theorem recorded_nil (h : s.isLattice = true ∨ s.size = 0) : s.Recorded [] where
  length_eq := by
    rcases h with h | h
    · rw [h]
      rfl
    · rw [h, ite_self]
      rfl
  entry hk := by cases hk

/-- The step adds one element with the ends `ends`, if it adds any. -/
def Appends (sizes : SetId → Nat) (step : MeshSet → Except MeshError (ElementRef × MeshSet))
    (ends : List ElementRef) : Prop :=
  ∀ {t t' : MeshSet} {r : ElementRef}, t.Filled sizes → step t = .ok (r, t') →
    t.push (ends.map (·.ident)) = (r, t') ∧ ends.length = t.cardinality ∧ t.extents = none ∧
      Extends sizes t t' [r]

/-- A vertex is one element without ends. -/
theorem appends_add : Appends sizes add [] := by
  intro t t' r ht hadd
  obtain ⟨hpush, hcard, hextents⟩ := push_of_add hadd
  exact ⟨hpush, hcard.symm, hextents, extends_add ht hadd⟩

/-- An edge is one element with the ends that were given for it. -/
theorem appends_addEdge {ends : List ElementRef} (howned : ∀ e ∈ ends, e.ident < sizes e.set) :
    Appends sizes (fun s => s.addEdge ends) ends := by
  intro t t' r ht hadd
  obtain ⟨hpush, hsets, hcard, -⟩ := push_of_addEdge hadd
  exact ⟨hpush, hcard, ht.extents_eq_none hsets, extends_addEdge ht howned hadd⟩

/-- One more addition is one more element. -/
theorem Recorded.append {step : MeshSet → Except MeshError (ElementRef × MeshSet)}
    {ends : List ElementRef} {r : ElementRef} (h : s.Recorded log) (hs : s.Filled sizes)
    (happends : Appends sizes step ends) (hstep : step s = .ok (r, s')) :
    s'.Recorded (log ++ [(r, ends)]) := by
  obtain ⟨hpush, hlength, hextents, hextends⟩ := happends hs hstep
  have hr : r = ⟨s.id, Word.low32 s.size⟩ := (congrArg Prod.fst hpush).symm
  have hs' : s' = (s.push (ends.map (·.ident))).2 := (congrArg Prod.snd hpush).symm
  have hfilled := hextends.filled
  have hlattice : s.isLattice = false := by rw [SetView.isLattice, hextents]; rfl
  have hcount : log.length = s.size := by rw [h.length_eq, hlattice]; rfl
  subst hs'
  have hends : ∀ {k : Nat}, k ≤ s.size → (s.push (ends.map (·.ident))).2.ends k =
      if k = s.size then ends.map (·.ident) else s.ends k :=
    ends_push hs (by rw [List.length_map, hlength]) hfilled
  refine ⟨?_, fun {k r' ends'} hk => ?_⟩
  · have hlattice' : (s.push (ends.map (·.ident))).2.isLattice = false := hlattice
    rw [List.length_append, hcount, hlattice']
    rfl
  -- The earlier elements keep their ends, and the last one has those of this addition.
  · rw [List.getElem?_append] at hk
    split at hk
    · next hlt =>
      rw [hcount] at hlt
      rw [hends (Nat.le_of_lt hlt), if_neg (Nat.ne_of_lt hlt)]
      exact h.entry hk
    · next hge =>
      obtain ⟨rfl, hentry⟩ : k = s.size ∧ (r, ends) = (r', ends') := by
        rw [List.getElem?_singleton] at hk
        split at hk
        · next heq => exact ⟨by omega, Option.some.inj hk⟩
        · cases hk
      cases hentry
      rw [hends (Nat.le_refl _), if_pos rfl]
      exact ⟨hr, rfl⟩

section Grow

variable {α : Type} {step : α → MeshSet → Except MeshError (ElementRef × MeshSet)}
  {ends : α → List ElementRef}

/-- The additions that a run of steps makes, up to the first refusal: the new elements, each with
the ends that were given for it. -/
def accepted (step : α → MeshSet → Except MeshError (ElementRef × MeshSet))
    (ends : α → List ElementRef) : List α → MeshSet → List (ElementRef × List ElementRef)
  | [], _ => []
  | a :: as, s =>
    match step a s with
    | .error _ => []
    | .ok (r, s) => (r, ends a) :: accepted step ends as s

/-- A run of steps adds what it accepts. -/
theorem Recorded.grow {as : List α} (h : s.Recorded log) (hs : s.Filled sizes)
    (hsteps : ∀ a ∈ as, Appends sizes (step a) (ends a)) :
    (grow step as s).2.Recorded (log ++ accepted step ends as s) := by
  induction as generalizing s log with
  | nil =>
    rw [accepted, List.append_nil]
    exact h
  | cons a as ih =>
    have ha : Appends sizes (step a) (ends a) := hsteps a List.mem_cons_self
    rw [MeshSet.grow, accepted]
    rcases hstep : step a s with e | ⟨r, s'⟩
    -- A refused step ends the run with the set as it was.
    · rw [List.append_nil]
      exact h
    · obtain ⟨-, -, -, hextends⟩ := ha hs hstep
      have hrest := ih (h.append hs ha hstep) hextends.filled fun a' ha' =>
        hsteps a' (List.mem_cons_of_mem a ha')
      rw [List.append_assoc, List.singleton_append] at hrest
      -- Whether a later step is refused does not matter for what has been added.
      rcases hgrow : MeshSet.grow step as s' with ⟨e | rs, t⟩
      · rw [hgrow] at hrest
        simp only [hgrow]
        exact hrest
      · rw [hgrow] at hrest
        simp only [hgrow]
        exact hrest

/-- What is added to a set has its identity. -/
theorem accepted_set {as : List α} (hs : s.Filled sizes)
    (hsteps : ∀ a ∈ as, Appends sizes (step a) (ends a)) :
    ∀ entry ∈ accepted step ends as s, entry.1.set = s.id := by
  induction as generalizing s with
  | nil =>
    intro entry hentry
    cases hentry
  | cons a as ih =>
    intro entry hentry
    rw [accepted] at hentry
    rcases hstep : step a s with e | ⟨r, s'⟩
    · rw [hstep] at hentry
      cases hentry
    · rw [hstep] at hentry
      obtain ⟨-, -, -, hextends⟩ := hsteps a List.mem_cons_self hs hstep
      rcases List.mem_cons.1 hentry with rfl | hentry
      · exact (hextends.owned r (List.mem_singleton_self r)).1
      · rw [← hextends.id_eq]
        exact ih hextends.filled (fun a' ha' => hsteps a' (List.mem_cons_of_mem a ha')) entry hentry

end Grow

end MeshSet

/-! ## References -/

namespace MeshSet

variable {sizes : SetId → Nat} {s : MeshSet} {r : ElementRef}

/-- The reference is to an element of the set. -/
def Owns (s : MeshSet) (r : ElementRef) : Prop := r.set = s.id ∧ r.ident < s.size

/-- An element that is looked up by its number belongs to the set. -/
theorem owns_of_element? {ident : Nat} (h : s.element? ident = some r) : s.Owns r := by
  unfold element? at h
  split at h
  · next hlt =>
    cases h
    exact ⟨rfl, hlt⟩
  · cases h

theorem owns_of_mem_elements (h : r ∈ s.elements) : s.Owns r := by
  obtain ⟨ident, hident, rfl⟩ := List.mem_map.1 h
  exact ⟨rfl, Nat.lt_of_lt_of_le (List.mem_range.1 hident) (Word.low32_le s.size)⟩

/-- An element that is looked up by its coordinates belongs to the lattice. -/
theorem owns_of_latticeElement {coords : List Nat} (hs : s.Filled sizes)
    (h : s.latticeElement coords = .ok r) : s.Owns r := by
  unfold latticeElement at h
  split at h
  · cases h
  · next extents hextents =>
    split at h
    · cases h
    · next id hid =>
      cases h
      refine ⟨rfl, Nat.lt_of_le_of_lt (Word.low32_le id) ?_⟩
      rw [(hs.lattice hextents).1]
      exact Lattice.id?_lt_prod hid

theorem isLattice_of_lattice {id : SetId} {name : String} {dims : List Nat}
    (h : lattice id name dims = .ok s) : s.isLattice = true := by
  unfold lattice at h
  split at h
  · cases h
  · cases h
    rfl

end MeshSet

/-! ## Single additions -/

namespace Mesh

/-- One addition to the set of identity `id`, by `MeshSet.add` or `MeshSet.addEdge`: its outcome,
and the mesh afterwards. A set that refuses the addition is stored as it was. -/
def append? (m : Mesh) (id : SetId) (step : MeshSet → Except MeshError (ElementRef × MeshSet)) :
    Option (Except MeshError ElementRef × Mesh) :=
  (m.find? id).map fun s =>
    match step s with
    | .error e => (.error e, m.put s)
    | .ok (r, s') => (.ok r, m.put s')

/-- An addition extends one set, or it is refused and leaves the mesh as it was. -/
theorem append?_cases {m m' : Mesh} {id : SetId}
    {step : MeshSet → Except MeshError (ElementRef × MeshSet)}
    {result : Except MeshError ElementRef} (hm : m.Consistent)
    (h : m.append? id step = some (result, m')) :
    ∃ s ∈ m.sets, (∃ e, step s = .error e ∧ result = .error e ∧ m' = m) ∨
      ∃ r s', step s = .ok (r, s') ∧ result = .ok r ∧ m' = m.put s' := by
  obtain ⟨s, hfind, hrun⟩ := Option.map_eq_some_iff.1 h
  obtain ⟨hs, -⟩ := mem_of_find? hfind
  refine ⟨s, hs, ?_⟩
  rcases hstep : step s with e | ⟨r, s'⟩
  · rw [hstep] at hrun
    cases hrun
    exact .inl ⟨e, rfl, rfl, put_self hm hs⟩
  · rw [hstep] at hrun
    cases hrun
    exact .inr ⟨r, s', rfl, rfl, rfl⟩

end Mesh

/-! ## Histories -/

/-- A mesh with what has been handed out and added. -/
structure History where
  /-- The mesh. -/
  mesh : Mesh
  /-- The references that sets have handed out. -/
  handedOut : List ElementRef
  /-- The elements that have been added, in that order, with the ends given for them. -/
  added : List (ElementRef × List ElementRef)

namespace History

open MeshSet Success

/-- The history of the empty mesh. -/
def empty : History := ⟨.empty, [], []⟩

/-- The additions to the set of identity `id`. -/
def addedTo (h : History) (id : SetId) : List (ElementRef × List ElementRef) :=
  h.added.filter (·.1.set = id)

/-- The history after a call that leaves the mesh `m`, hands out `refs` and adds `log`. -/
def record (h : History) (m : Mesh) (refs : List ElementRef)
    (log : List (ElementRef × List ElementRef)) : History :=
  ⟨m, h.handedOut ++ refs, h.added ++ log⟩

/-- The history after a call that leaves the mesh `m` and adds an element with the ends `ends`,
unless it is refused. -/
def recordElement (h : History) (m : Mesh) (result : Except MeshError ElementRef)
    (ends : List ElementRef) : History :=
  match result with
  | .error _ => h.record m [] []
  | .ok r => h.record m [r] [(r, ends)]

/-- The additions that make a box: its vertices, then its edges. -/
def boxAdditions (v e : MeshSet) (nx ny nz : Nat) : List (ElementRef × List ElementRef) :=
  v.accepted (fun _ => add) (fun _ => []) (List.replicate (nx * ny * nz) ()) ++
    e.accepted (fun ends s => s.addEdge ends) (fun ends => ends) (v.boxPairs nx ny nz)

/-- The references that a box hands out. -/
def boxVertices (result : Except MeshError Box) : List ElementRef :=
  match result with
  | .ok box => box.vertices.toList
  | .error _ => []

/-- One call on a mesh, refused or not. The ends given for an edge are references that have been
handed out, by any set. -/
inductive Step : History → History → Prop
  | vertexSet (h : History) (name : String) :
      Step h (h.record (h.mesh.addVertexSet name).2 [] [])
  | edgeSet (h : History) (name : String) {targets : List MeshSet} :
      (∀ t ∈ targets, t ∈ h.mesh.sets) → Step h (h.record (h.mesh.addEdgeSet name targets).2 [] [])
  | lattice {h : History} {m : Mesh} {name : String} {dims : List Nat} {s : MeshSet} :
      h.mesh.addLattice name dims = .ok (s, m) → Step h (h.record m [] [])
  | rename {h : History} {s : MeshSet} (name : String) :
      s ∈ h.mesh.sets → Step h (h.record (h.mesh.put (s.rename name)) [] [])
  | add {h : History} {m : Mesh} {id : SetId} {result : Except MeshError ElementRef} :
      h.mesh.append? id MeshSet.add = some (result, m) → Step h (h.recordElement m result [])
  | addEdge {h : History} {m : Mesh} {id : SetId} {ends : List ElementRef}
      {result : Except MeshError ElementRef} :
      (∀ r ∈ ends, r ∈ h.handedOut) → h.mesh.append? id (·.addEdge ends) = some (result, m) →
        Step h (h.recordElement m result ends)
  | createBox {h : History} {m : Mesh} {v e : MeshSet} {nx ny nz : Nat}
      {result : Except MeshError Box} :
      v ∈ h.mesh.sets → e ∈ h.mesh.sets → v.id ≠ e.id →
        h.mesh.createBox? v.id e.id nx ny nz = some (result, m) →
          Step h (h.record m (boxVertices result) (boxAdditions v e nx ny nz))
  | element {h : History} {s : MeshSet} {ident : Nat} {r : ElementRef} :
      s ∈ h.mesh.sets → s.element? ident = some r → Step h (h.record h.mesh [r] [])
  | elements {h : History} {s : MeshSet} :
      s ∈ h.mesh.sets → Step h (h.record h.mesh s.elements [])
  | latticeElement {h : History} {s : MeshSet} {coords : List Nat} {r : ElementRef} :
      s ∈ h.mesh.sets → s.latticeElement coords = .ok r → Step h (h.record h.mesh [r] [])

/-- Any number of calls, one after another. -/
inductive Runs (h : History) : History → Prop
  | refl : Runs h h
  | step {h' h'' : History} : Runs h h' → Step h' h'' → Runs h h''

/-- The histories that any number of calls give. -/
def Reached (h : History) : Prop := Runs .empty h

/-! ## Soundness -/

variable {h h' : History} {s s' : MeshSet}

/-- References are to elements that exist, and every set holds what has been added to it. -/
structure Sound (h : History) : Prop where
  consistent : h.mesh.Consistent
  owned : ∀ r ∈ h.handedOut, r.ident < h.mesh.sizes r.set
  numbered : ∀ entry ∈ h.added, entry.1.set.number ≤ h.mesh.numbered
  recorded : ∀ s ∈ h.mesh.sets, s.Recorded (h.addedTo s.id)

theorem sound_empty : empty.Sound :=
  ⟨Mesh.consistent_empty, fun _ hr => absurd hr List.not_mem_nil,
    fun _ hentry => absurd hentry List.not_mem_nil, fun _ hs => absurd hs List.not_mem_nil⟩

/-- A call adds to a set those of its additions that have the identity of the set. -/
theorem addedTo_record (h : History) (m : Mesh) (refs : List ElementRef)
    (log : List (ElementRef × List ElementRef)) (id : SetId) :
    (h.record m refs log).addedTo id = h.addedTo id ++ log.filter (·.1.set = id) :=
  List.filter_append _ _

/-- Nothing has been added to a set before it is made. -/
theorem addedTo_nextId (h : History) (hsound : h.Sound) : h.addedTo h.mesh.nextId = [] := by
  refine List.filter_eq_nil_iff.2 fun entry hentry => ?_
  have hle := hsound.numbered entry hentry
  rw [decide_eq_true_eq]
  intro hid
  rw [hid, Mesh.nextId] at hle
  exact Nat.not_succ_le_self _ hle

/-- A new set may be stored, without additions. -/
theorem Sound.insert (hsound : h.Sound) (hid : s.id = h.mesh.nextId) (hs : s.Filled h.mesh.sizes)
    (hnil : s.Recorded []) : (h.record (h.mesh.insert s).2 [] []).Sound where
  consistent := Mesh.consistent_insert hsound.consistent hid hs
  owned r hr := by
    simp only [record, List.append_nil] at hr
    exact Nat.lt_of_lt_of_le (hsound.owned r hr) (Mesh.sizes_le_insert h.mesh s r.set)
  numbered entry hentry := by
    simp only [record, List.append_nil] at hentry
    exact Nat.le_succ_of_le (hsound.numbered entry hentry)
  recorded t ht := by
    rw [addedTo_record, List.filter_nil, List.append_nil]
    have hmem : t ∈ h.mesh.sets ∨ t = s := by simpa [record, Mesh.insert] using ht
    rcases hmem with ht | rfl
    · exact hsound.recorded t ht
    · rw [hid, addedTo_nextId h hsound]
      exact hnil

/-- A set may be extended by what is added to it. -/
theorem Sound.put (hsound : h.Sound) (hs : s ∈ h.mesh.sets) {rs : List ElementRef}
    {log : List (ElementRef × List ElementRef)} (hextends : Extends h.mesh.sizes s s' rs)
    (hlog : ∀ entry ∈ log, entry.1.set = s.id) (hrecorded : s'.Recorded (h.addedTo s.id ++ log)) :
    (h.record (h.mesh.put s') rs log).Sound := by
  have hconsistent := Mesh.consistent_put hsound.consistent hs hextends
  have hle := Mesh.sizes_le_put hsound.consistent hs hextends.id_eq hextends.size_le
  have hs' : s' ∈ (h.mesh.put s').sets := Mesh.mem_put_self hs hextends.id_eq
  refine ⟨hconsistent, fun r hr => ?_, fun entry hentry => ?_, fun t ht => ?_⟩
  -- Earlier references stay inside since no set shrinks, and the new ones are to the set itself.
  · rcases List.mem_append.1 hr with hr | hr
    · exact Nat.lt_of_lt_of_le (hsound.owned r hr) (hle r.set)
    · obtain ⟨hset, hident⟩ := hextends.owned r hr
      show r.ident < (h.mesh.put s').sizes r.set
      rw [hset, ← hextends.id_eq, Mesh.sizes_of_mem hconsistent hs']
      exact hident
  · rcases List.mem_append.1 hentry with hentry | hentry
    · exact hsound.numbered entry hentry
    · rw [hlog entry hentry]
      exact hsound.consistent.numbered hs
  · rw [addedTo_record]
    rcases Mesh.mem_put ht with rfl | ⟨ht, hne⟩
    · rw [hextends.id_eq,
        List.filter_eq_self.2 fun entry hentry => decide_eq_true (hlog entry hentry)]
      exact hrecorded
    -- Nothing is added to the other sets.
    · have hnil : log.filter (·.1.set = t.id) = [] := by
        refine List.filter_eq_nil_iff.2 fun entry hentry => ?_
        rw [decide_eq_true_eq, hlog entry hentry, ← hextends.id_eq]
        exact Ne.symm hne
      rw [hnil, List.append_nil]
      exact hsound.recorded t ht

/-- A reference that a set owns is to one of its elements. -/
theorem Sound.lt_sizes (hsound : h.Sound) (hs : s ∈ h.mesh.sets) {r : ElementRef}
    (hr : s.Owns r) : r.ident < h.mesh.sizes r.set := by
  rw [hr.1, Mesh.sizes_of_mem hsound.consistent hs]
  exact hr.2

/-- A set may hand out references to its elements. -/
theorem Sound.handOut (hsound : h.Sound) {refs : List ElementRef}
    (hrefs : ∀ r ∈ refs, r.ident < h.mesh.sizes r.set) : (h.record h.mesh refs []).Sound where
  consistent := hsound.consistent
  owned r hr := (List.mem_append.1 hr).elim (hsound.owned r) (hrefs r)
  numbered entry hentry := by
    simp only [record, List.append_nil] at hentry
    exact hsound.numbered entry hentry
  recorded t ht := by
    rw [addedTo_record, List.filter_nil, List.append_nil]
    exact hsound.recorded t ht

/-- Fewer references may be handed out. -/
theorem Sound.mono (hsound : h.Sound) {refs : List ElementRef} (hrefs : refs ⊆ h.handedOut) :
    Sound ⟨h.mesh, refs, h.added⟩ :=
  ⟨hsound.consistent, fun r hr => hsound.owned r (hrefs hr), hsound.numbered, hsound.recorded⟩

/-- A set may be extended by a run of additions. -/
theorem Sound.grow {α : Type} {step : α → MeshSet → Except MeshError (ElementRef × MeshSet)}
    {ends : α → List ElementRef} {as : List α} (hsound : h.Sound) (hs : s ∈ h.mesh.sets)
    (hsteps : ∀ a ∈ as, Appends h.mesh.sizes (step a) (ends a)) :
    (h.record (h.mesh.put (s.grow step as).2) (MeshSet.handedOut (s.grow step as).1)
      (s.accepted step ends as)).Sound := by
  have hfilled := hsound.consistent.filled hs
  refine hsound.put hs (extends_grow hfilled fun a ha t t' r ht hstep => ?_)
    (accepted_set hfilled hsteps) ((hsound.recorded s hs).grow hfilled hsteps)
  exact (hsteps a ha ht hstep).2.2.2

/-- A set may be extended by one addition, or refuse it. -/
theorem Sound.append? {step : MeshSet → Except MeshError (ElementRef × MeshSet)}
    {ends : List ElementRef} {id : SetId} {m : Mesh} {result : Except MeshError ElementRef}
    (hsound : h.Sound) (happends : Appends h.mesh.sizes step ends)
    (happend : h.mesh.append? id step = some (result, m)) :
    (h.recordElement m result ends).Sound := by
  obtain ⟨s, hs, ⟨e, -, rfl, rfl⟩ | ⟨r, s', hstep, rfl, rfl⟩⟩ :=
    Mesh.append?_cases hsound.consistent happend
  · exact hsound.handOut fun r hr => absurd hr List.not_mem_nil
  · have hfilled := hsound.consistent.filled hs
    obtain ⟨-, -, -, hextends⟩ := happends hfilled hstep
    refine hsound.put hs hextends (fun entry hentry => ?_)
      ((hsound.recorded s hs).append hfilled happends hstep)
    rw [List.mem_singleton.1 hentry]
    exact (hextends.owned r (List.mem_singleton_self r)).1

/-- A box is two runs of additions, one after the other. -/
theorem Sound.createBox {m : Mesh} {v e : MeshSet} {nx ny nz : Nat} {result : Except MeshError Box}
    (hsound : h.Sound) (hv : v ∈ h.mesh.sets) (he : e ∈ h.mesh.sets) (hne : v.id ≠ e.id)
    (hbox : h.mesh.createBox? v.id e.id nx ny nz = some (result, m)) :
    (h.record m (boxVertices result) (boxAdditions v e nx ny nz)).Sound := by
  rw [Mesh.createBox?, Mesh.find?_eq_some hsound.consistent hv,
    Mesh.find?_eq_some hsound.consistent he] at hbox
  obtain ⟨hresult, hm⟩ := Prod.mk.inj (Option.some.inj hbox)
  rw [vertices_createBox, edges_createBox] at hm
  -- The vertices come first. They are handed out, so that they can be ends.
  have hsteps : ∀ a ∈ List.replicate (nx * ny * nz) (), Appends h.mesh.sizes add [] :=
    fun _ _ => appends_add
  have hvertices := hsound.grow hv hsteps
  have hvid : (v.addVertices (nx * ny * nz)).2.id = v.id :=
    (extends_addVertices (hsound.consistent.filled hv) _).id_eq
  have he' : e ∈ (h.mesh.put (v.addVertices (nx * ny * nz)).2).sets :=
    Mesh.mem_put_of_ne he (by rw [hvid]; exact hne.symm)
  have hpairs : ∀ ends ∈ v.boxPairs nx ny nz,
      Appends (h.mesh.put (v.addVertices (nx * ny * nz)).2).sizes
        (fun s => s.addEdge ends) ends := fun ends hends =>
    appends_addEdge fun r hr =>
      hvertices.owned r (List.mem_append_right _ (mem_of_boxPairs hends r hr))
  have hedges := hvertices.grow he' hpairs
  have heid : (e.addEdges (v.boxPairs nx ny nz)).2.id = e.id :=
    (extends_grow (hvertices.consistent.filled he') fun ends hends _ _ _ ht hstep =>
      (hpairs ends hends ht hstep).2.2.2).id_eq
  have hput : m = (h.mesh.put (v.addVertices (nx * ny * nz)).2).put
      (e.addEdges (v.boxPairs nx ny nz)).2 := by
    rw [← hm]
    exact Mesh.put_comm h.mesh (by rw [hvid, heid]; exact hne.symm)
  -- What was added before a refusal stays, but then there is no box to hand out.
  have hrefs : boxVertices result ⊆ MeshSet.handedOut (v.addVertices (nx * ny * nz)).1 := by
    cases result with
    | error => exact List.nil_subset _
    | ok box => exact vertices_subset_of_createBox hresult
  have hsubset : h.handedOut ++ boxVertices result ⊆
      h.handedOut ++ MeshSet.handedOut (v.addVertices (nx * ny * nz)).1 ++
        MeshSet.handedOut (e.addEdges (v.boxPairs nx ny nz)).1 :=
    List.subset_append_of_subset_left _ (List.append_subset.2
      ⟨List.subset_append_left _ _, fun r hr => List.mem_append_right _ (hrefs hr)⟩)
  rw [record, boxAdditions, ← List.append_assoc, hput]
  exact hedges.mono hsubset

/-! ## Runs -/

/-- One call keeps a history sound, refused or not. -/
theorem sound_of_step (hsound : h.Sound) (hstep : Step h h') : h'.Sound := by
  cases hstep with
  | vertexSet name => exact hsound.insert rfl (filled_vertexSet _ _) (recorded_nil (.inr rfl))
  | edgeSet name _ => exact hsound.insert rfl (filled_edgeSet _ _ _) (recorded_nil (.inr rfl))
  | lattice hlattice =>
    obtain ⟨s, hs, hinsert⟩ := map_eq_ok hlattice
    obtain ⟨hfilled, hid⟩ := filled_lattice hs
    cases hinsert
    exact hsound.insert hid hfilled (recorded_nil (.inl (isLattice_of_lattice hs)))
  | rename name hs =>
    refine hsound.put hs (Extends.rename (hsound.consistent.filled hs) name)
      (fun entry hentry => absurd hentry List.not_mem_nil) ?_
    rw [List.append_nil]
    exact (hsound.recorded _ hs).rename name
  | add happend => exact hsound.append? appends_add happend
  | addEdge hends happend =>
    exact hsound.append? (appends_addEdge fun r hr => hsound.owned r (hends r hr)) happend
  | createBox hv he hne hbox => exact hsound.createBox hv he hne hbox
  | element hs helement =>
    refine hsound.handOut fun r hr => ?_
    rw [List.mem_singleton.1 hr]
    exact hsound.lt_sizes hs (owns_of_element? helement)
  | elements hs =>
    exact hsound.handOut fun r hr => hsound.lt_sizes hs (owns_of_mem_elements hr)
  | latticeElement hs helement =>
    refine hsound.handOut fun r hr => ?_
    rw [List.mem_singleton.1 hr]
    exact hsound.lt_sizes hs (owns_of_latticeElement (hsound.consistent.filled hs) helement)

/-- Any number of calls give a sound history. -/
theorem sound_of_reached (hreached : h.Reached) : h.Sound := by
  induction hreached with
  | refl => exact sound_empty
  | step _ hstep ih => exact sound_of_step ih hstep

/-- An addition comes after all earlier ones. -/
theorem added_prefix_recordElement (h : History) (m : Mesh) (result : Except MeshError ElementRef)
    (ends : List ElementRef) : h.added <+: (h.recordElement m result ends).added := by
  cases result <;> exact List.prefix_append _ _

/-- What was added before a call comes before what the call adds. -/
theorem added_prefix_of_step (hstep : Step h h') : h.added <+: h'.added := by
  cases hstep with
  | add => exact added_prefix_recordElement h _ _ _
  | addEdge => exact added_prefix_recordElement h _ _ _
  | _ => exact List.prefix_append _ _

/-- What has been added stays in the history. -/
theorem added_prefix_of_runs (hruns : Runs h h') : h.added <+: h'.added := by
  induction hruns with
  | refl => exact List.prefix_rfl
  | step _ hstep ih => exact ih.trans (added_prefix_of_step hstep)

theorem Reached.trans (hreached : h.Reached) (hruns : Runs h h') : h'.Reached := by
  induction hruns with
  | refl => exact hreached
  | step _ hstep ih => exact Runs.step ih hstep

/-! ## What holds of a set -/

/-- What holds of a set in a history. Every element has its ends, which exist. References that were
handed out are to elements that exist. The additions have the numbers `0, 1, 2, …`, and each of
them reads back as the ends that were given for it. -/
structure Intact (h : History) (s : MeshSet) : Prop where
  endpoints_size : s.endpoints.size = s.size * s.cardinality
  exists_end : ∀ {element position : Nat}, element < s.size → position < s.cardinality →
    ∃ v, ∃ t ∈ h.mesh.sets, s.endpointSet? position = some t.id ∧
      s.endpoint? element position = some v ∧ v < t.size
  handedOut_lt : ∀ r ∈ h.handedOut, r.set = s.id → r.ident < s.size
  idents_eq : (h.addedTo s.id).map (·.1.ident) = List.range (if s.isLattice then 0 else s.size)
  reads_back : ∀ {r : ElementRef} {ends : List ElementRef}, (r, ends) ∈ h.added → r.set = s.id →
    s.endpointsOf r = ends.map (·.ident) ∧
      ∀ position < s.cardinality,
        s.endpoint? r.ident position = ends[position]?.map (·.ident)

/-- What a set has recorded, in the order of its elements. -/
theorem Sound.exists_element (hsound : h.Sound) (hs : s ∈ h.mesh.sets)
    (hsmall : s.size < Word.span32) {k : Nat} {r : ElementRef} {ends : List ElementRef}
    (hk : (h.addedTo s.id)[k]? = some (r, ends)) :
    k < s.size ∧ r.ident = k ∧ s.ends k = ends.map (·.ident) := by
  have hrecorded := hsound.recorded s hs
  obtain ⟨rfl, hends⟩ := hrecorded.entry hk
  have hlt : k < s.size := by
    have hlength := (List.getElem?_eq_some_iff.1 hk).1
    rw [hrecorded.length_eq] at hlength
    split at hlength
    · exact absurd hlength (Nat.not_lt_zero k)
    · exact hlength
  exact ⟨hlt, Word.low32_eq_self (Nat.lt_trans hlt hsmall), hends⟩

/-- In a sound history, every set whose elements have stored numbers is intact. -/
theorem Sound.intact (hsound : h.Sound) (hs : s ∈ h.mesh.sets) (hsmall : s.size < Word.span32) :
    h.Intact s := by
  have hfilled := hsound.consistent.filled hs
  refine ⟨hfilled.endpoints_size, fun {element position} helement hposition => ?_,
    fun r hr hset => ?_, ?_, fun {r ends} hadded hset => ?_⟩
  · have hid : s.endpointSet? position = some s.endpointSets[position] :=
      List.getElem?_eq_getElem hposition
    obtain ⟨v, hv⟩ := (hfilled.exists_endpoint_iff hid).2 helement
    obtain ⟨t, ht, hidt, hlt⟩ := Mesh.exists_of_lt_sizes (hfilled.end_lt hid hv)
    exact ⟨v, t, ht, by rw [hid, hidt], hv, hlt⟩
  · have hlt := hsound.owned r hr
    rw [hset, Mesh.sizes_of_mem hsound.consistent hs] at hlt
    exact hlt
  · refine List.ext_getElem ?_ fun k hk _ => ?_
    · rw [List.length_map, List.length_range, (hsound.recorded s hs).length_eq]
    · rw [List.length_map] at hk
      rw [List.getElem_map, List.getElem_range]
      exact (hsound.exists_element hs hsmall (List.getElem?_eq_getElem hk)).2.1
  · have hmem : (r, ends) ∈ h.addedTo s.id :=
      List.mem_filter.2 ⟨hadded, decide_eq_true hset⟩
    obtain ⟨k, hk⟩ := List.mem_iff_getElem?.1 hmem
    obtain ⟨hlt, rfl, hends⟩ := hsound.exists_element hs hsmall hk
    refine ⟨hends, fun position hposition => ?_⟩
    have hget := hfilled.getElem?_ends hlt position
    rw [if_pos hposition, hends, List.getElem?_map] at hget
    exact hget.symm

/-- A refused addition leaves the mesh as it was. -/
theorem mesh_eq_of_refused {step : MeshSet → Except MeshError (ElementRef × MeshSet)} {id : SetId}
    {e : MeshError} {m : Mesh} (hsound : h.Sound)
    (happend : h.mesh.append? id step = some (.error e, m)) : m = h.mesh := by
  obtain ⟨s, -, ⟨_, -, -, hm⟩ | ⟨_, _, -, hresult, -⟩⟩ :=
    Mesh.append?_cases hsound.consistent happend
  · exact hm
  · cases hresult

/-- Over any calls on the sets of a mesh, what has been added stays added, and as long as stored
numbers hold all elements every set is intact. A refused addition changes no set. -/
theorem intact_of_runs (hreached : h.Reached) (hruns : Runs h h')
    (hsmall : ∀ s ∈ h'.mesh.sets, s.size < Word.span32) :
    h.added <+: h'.added ∧ (∀ s ∈ h'.mesh.sets, h'.Intact s) ∧
      (∀ id e m, h'.mesh.append? id MeshSet.add = some (.error e, m) → m = h'.mesh) ∧
      ∀ id ends e m, h'.mesh.append? id (·.addEdge ends) = some (.error e, m) → m = h'.mesh := by
  have hsound := sound_of_reached (hreached.trans hruns)
  exact ⟨added_prefix_of_runs hruns, fun s hs => hsound.intact hs (hsmall s hs),
    fun _ _ _ happend => mesh_eq_of_refused hsound happend,
    fun _ _ _ _ happend => mesh_eq_of_refused hsound happend⟩

/-- Two vertices and an edge between them. Then an edge with one end is refused, and a box of two
vertices is added to the same sets. -/
theorem intact_of_runs_edgeMesh :
    let vertex (ident : Nat) : ElementRef := ⟨⟨1⟩, ident⟩
    let edge (ident : Nat) : ElementRef := ⟨⟨2⟩, ident⟩
    let h : History := ⟨Mesh.edgeMesh, [vertex 0, vertex 1, edge 0],
      [(vertex 0, []), (vertex 1, []), (edge 0, [vertex 0, vertex 1])]⟩
    ∃ h', Runs h h' ∧ h.added <+: h'.added ∧ (∀ s ∈ h'.mesh.sets, h'.Intact s) ∧
      h'.added.map (·.1) = [vertex 0, vertex 1, edge 0, vertex 2, vertex 3, edge 1] := by
  intro vertex edge h
  let v : MeshSet := .vertexSet ⟨1⟩ "V"
  let v₁ : MeshSet := (v.push []).2
  let e : MeshSet := .edgeSet ⟨2⟩ "E" [Mesh.twoVertices, Mesh.twoVertices]
  let h₁ : History := ⟨⟨[v], 1⟩, [], []⟩
  let h₂ : History := ⟨⟨[v₁], 1⟩, [vertex 0], [(vertex 0, [])]⟩
  let h₃ : History :=
    ⟨⟨[Mesh.twoVertices], 1⟩, [vertex 0, vertex 1], [(vertex 0, []), (vertex 1, [])]⟩
  let h₄ : History := { h₃ with mesh := ⟨[Mesh.twoVertices, e], 2⟩ }
  have hreached : h.Reached := by
    have hv : Step .empty h₁ := .vertexSet _ "V"
    have hv₁ : Step h₁ h₂ := @Step.add h₁ _ ⟨1⟩ (.ok (vertex 0)) rfl
    have hv₂ : Step h₂ h₃ := @Step.add h₂ _ ⟨1⟩ (.ok (vertex 1)) rfl
    have he : Step h₃ h₄ := @Step.edgeSet h₃ "E" [Mesh.twoVertices, Mesh.twoVertices] (by simp [h₃])
    have he₁ : Step h₄ h :=
      @Step.addEdge h₄ _ ⟨2⟩ [vertex 0, vertex 1] (.ok (edge 0)) (by simp [h₄, h₃]) rfl
    exact ((((Runs.refl.step hv).step hv₁).step hv₂).step he).step he₁
  have hrefused : Step h h :=
    @Step.addEdge h _ ⟨2⟩ [vertex 0] (.error (.endpointCount "E" 2 1)) (by simp [h]) rfl
  have hbox := @Step.createBox h _ Mesh.twoVertices Mesh.singleEdge 2 1 1 _ (by decide) (by decide)
    (by decide) rfl
  have hruns := (Runs.refl.step hrefused).step hbox
  obtain ⟨hadded, hintact, -, -⟩ := intact_of_runs hreached hruns (by decide)
  exact ⟨_, hruns, hadded, hintact, by decide⟩

end History

end MeshPath
