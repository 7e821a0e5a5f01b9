import MeshPath.Proofs.Expr.WellFormed

/-!
# Reading written expressions

The written form of an expression determines it up to the stencils, which are not written out. The
variables must have no sets, and their names no character that separates the parts of an
expression. A written form then tells where it ends, whatever follows it.

* `Var.Plain`: the variables for which this holds. Names may be empty or spell keywords.
* `SameUpToStencils`: what the written form leaves open.
* `text_append_inj`: a written form is told apart from what follows it.
* `text_eq_iff`: expressions are written alike exactly if they are the same up to stencils.
-/

namespace MeshPath

/-- The characters that separate the parts of a written expression. -/
def delimiters : List Char := ['(', ')', ',', ' ']

/-- What ends with a delimiter is told apart from what follows it. -/
theorem append_delimiter_inj {d : Char} {l l' r r' : List Char} (hl : d ∉ l) (hl' : d ∉ l')
    (h : l ++ d :: r = l' ++ d :: r') : l = l' ∧ r = r' := by
  induction l generalizing l' with
  | nil =>
    cases l' with
    | nil => exact ⟨rfl, (List.cons.inj h).2⟩
    | cons c' l' => exact absurd (List.mem_cons.2 (.inl (List.cons.inj h).1)) hl'
  | cons c l ih =>
    cases l' with
    | nil => exact absurd (List.mem_cons.2 (.inl (List.cons.inj h).1.symm)) hl
    | cons c' l' =>
      obtain ⟨rfl, htail⟩ := List.cons.inj h
      obtain ⟨rfl, hr⟩ := ih (fun hd => hl (.tail _ hd)) (fun hd => hl' (.tail _ hd)) htail
      exact ⟨rfl, hr⟩

namespace Var

variable {S : Type}

/-- A variable without a set whose name has no delimiter. -/
structure Plain (v : OpenVar S) : Prop where
  set_eq : v.set = none
  notMem : ∀ d ∈ delimiters, d ∉ v.name.toList

variable [Identified S] {v w : OpenVar S} {r r' : List Char}

/-- The text of a plain variable is its name. -/
theorem Plain.text_eq (hv : v.Plain) : v.text = v.name := by
  rw [text, hv.set_eq]

/-- A written variable is told apart from what follows the next delimiter. -/
theorem Plain.text_append_inj (hv : v.Plain) (hw : w.Plain) {d : Char} (hd : d ∈ delimiters)
    (h : v.text.toList ++ d :: r = w.text.toList ++ d :: r') : v = w ∧ r = r' := by
  rw [hv.text_eq, hw.text_eq] at h
  obtain ⟨hname, hr⟩ := append_delimiter_inj (hv.notMem d hd) (hw.notMem d hd) h
  obtain ⟨name, set⟩ := v
  obtain ⟨name', set'⟩ := w
  have hset : set = none := hv.set_eq
  have hset' : set' = none := hw.set_eq
  have hsame : name = name' := String.toList_injective hname
  rw [hset, hset', hsame]
  exact ⟨rfl, hr⟩

end Var

namespace PathTree

variable {S V : Type} [Identified S] {a b : OpenExpr S} {r r' : List Char}

/-! ## The parts of a written expression -/

/-- The quantifier of a formula as it is written between its free variables and its operands. -/
def quantifierText (q : Option (OpenVar S)) : String :=
  match q with
  | none => ""
  | some v => " " ++ v.quantifiedText

theorem text_link (kind : LinkKind) (source sink : OpenVar S) :
    (link kind source sink).text =
      kindName kind ++ "(" ++ source.text ++ "," ++ sink.text ++ ")" := rfl

theorem text_formula (c : Connective) (x y : OpenVar S) (q : Option (OpenVar S))
    (lhs rhs : OpenExpr S) :
    (formula c x y q lhs rhs).text =
      "(" ++ x.text ++ "," ++ y.text ++ ")" ++ quantifierText q ++ " | (" ++ lhs.text ++ ") " ++
        sign c ++ " (" ++ rhs.text ++ ")" := by
  cases q <;> rfl

/-- The text of a link, character by character as far as it is read back. -/
theorem toList_text_link (kind : LinkKind) (source sink : OpenVar S) :
    (link kind source sink).text.toList = (kindName kind).toList ++
      '(' :: (source.text.toList ++ ',' :: (sink.text.toList ++ [')'])) := by
  simp [text_link]

/-- The text of a formula, character by character as far as it is read back. -/
theorem toList_text_formula (c : Connective) (x y : OpenVar S) (q : Option (OpenVar S))
    (lhs rhs : OpenExpr S) :
    (formula c x y q lhs rhs).text.toList =
      '(' :: (x.text.toList ++ ',' :: (y.text.toList ++ ')' :: ((quantifierText q).toList ++
        ' ' :: '|' :: ' ' :: '(' :: (lhs.text.toList ++ ')' :: ' ' :: ((sign c).toList ++
          ' ' :: '(' :: (rhs.text.toList ++ [')'])))))) := by
  simp [text_formula]

theorem toList_quantifierText_some (v : OpenVar S) :
    (quantifierText (some v)).toList = " exist ".toList ++ v.text.toList := by
  have htext : quantifierText (some v) = " exist " ++ v.text := by
    rw [quantifierText, Var.quantifiedText, ← String.append_assoc]
    rfl
  rw [htext, String.toList_append]

/-- What stands in front of a link tells its kind, up to the stencil. -/
theorem kindName_append_inj {kind kind' : LinkKind}
    (h : (kindName kind).toList ++ r = (kindName kind').toList ++ r') :
    (kind = kind' ∨ ∃ s t, kind = .stencil s ∧ kind' = .stencil t) ∧ r = r' := by
  cases kind <;> cases kind' <;> simp_all [kindName]

/-- The sign of a connective tells which one it is. -/
theorem sign_append_inj {c c' : Connective} (h : (sign c).toList ++ r = (sign c').toList ++ r') :
    c = c' ∧ r = r' := by
  cases c <;> cases c' <;> simp_all [sign]

/-- After the free variables, `|` stands where a quantifier has its keyword. -/
theorem quantifierText_append_ne {v : OpenVar S} :
    (quantifierText (some v)).toList ++ r ≠
      (quantifierText (none : Option (OpenVar S))).toList ++ ' ' :: '|' :: r' := by
  rw [toList_quantifierText_some]
  simp [quantifierText]

/-- What stands in front of the bar tells the quantified variable, if there is one. -/
theorem quantifierText_append_inj {q q' : Option (OpenVar S)} (hq : ∀ v ∈ q.toList, v.Plain)
    (hq' : ∀ v ∈ q'.toList, v.Plain)
    (h : (quantifierText q).toList ++ ' ' :: '|' :: r =
      (quantifierText q').toList ++ ' ' :: '|' :: r') : q = q' ∧ r = r' := by
  cases q with
  | none =>
    cases q' with
    | none => simpa [quantifierText] using h
    | some w => exact absurd h.symm quantifierText_append_ne
  | some v =>
    cases q' with
    | none => exact absurd h quantifierText_append_ne
    | some w =>
      -- A name that spells the keyword does not matter, as it comes after the keyword itself.
      rw [toList_quantifierText_some, toList_quantifierText_some, List.append_assoc,
        List.append_assoc] at h
      obtain ⟨rfl, htail⟩ := (hq v (by simp)).text_append_inj (hq' w (by simp)) (by decide)
        (List.append_cancel_left h)
      exact ⟨rfl, (List.cons.inj htail).2⟩

/-! ## Whole expressions -/

/-- The expressions differ in nothing but the stencils of their links. -/
inductive SameUpToStencils : PathTree V → PathTree V → Prop
  | link (kind : LinkKind) (source sink : V) :
      SameUpToStencils (link kind source sink) (link kind source sink)
  | stencils (s t : Stencil) (source sink : V) :
      SameUpToStencils (link (.stencil s) source sink) (link (.stencil t) source sink)
  | formula (c : Connective) (x y : V) (q : Option V) {lhs lhs' rhs rhs' : PathTree V} :
      SameUpToStencils lhs lhs' → SameUpToStencils rhs rhs' →
        SameUpToStencils (formula c x y q lhs rhs) (formula c x y q lhs' rhs')

/-- No text starts both as a link and as a formula. -/
theorem text_link_append_ne {kind : LinkKind} {source sink x y : OpenVar S} {c : Connective}
    {q : Option (OpenVar S)} {lhs rhs : OpenExpr S} :
    (link kind source sink).text.toList ++ r ≠ (formula c x y q lhs rhs).text.toList ++ r' := by
  rw [toList_text_link, toList_text_formula]
  cases kind <;> simp [kindName]

/-- A written expression determines itself, up to stencils, and where it ends. -/
theorem text_append_inj (ha : ∀ v ∈ a.vars, v.Plain) (hb : ∀ v ∈ b.vars, v.Plain)
    (h : a.text.toList ++ r = b.text.toList ++ r') : SameUpToStencils a b ∧ r = r' := by
  -- The first character tells links from formulas. From there on, each part is read off the front.
  induction a generalizing b r r' with
  | link kind source sink =>
    cases b with
    | formula => exact absurd h text_link_append_ne
    | link kind' source' sink' =>
      simp only [vars, List.forall_mem_cons] at ha hb
      rw [toList_text_link, toList_text_link] at h
      simp only [List.append_assoc, List.cons_append, List.nil_append] at h
      obtain ⟨hkind, hsource⟩ := kindName_append_inj h
      obtain ⟨rfl, hsink⟩ := ha.1.text_append_inj hb.1 (by decide) (List.tail_eq_of_cons_eq hsource)
      obtain ⟨rfl, rfl⟩ := ha.2.1.text_append_inj hb.2.1 (by decide) hsink
      refine ⟨?_, rfl⟩
      rcases hkind with rfl | ⟨s, t, rfl, rfl⟩
      · exact .link kind source sink
      · exact .stencils s t source sink
  | formula c x y q lhs rhs ihl ihr =>
    cases b with
    | link => exact absurd h.symm text_link_append_ne
    | formula c' x' y' q' lhs' rhs' =>
      simp only [vars, List.forall_mem_cons, List.forall_mem_append] at ha hb
      obtain ⟨hx, hy, hq, hlhs, hrhs⟩ := ha
      obtain ⟨hx', hy', hq', hlhs', hrhs'⟩ := hb
      rw [toList_text_formula, toList_text_formula] at h
      simp only [List.append_assoc, List.cons_append, List.nil_append] at h
      obtain ⟨rfl, hsecond⟩ := hx.text_append_inj hx' (by decide) (List.tail_eq_of_cons_eq h)
      obtain ⟨rfl, hquantifier⟩ := hy.text_append_inj hy' (by decide) hsecond
      obtain ⟨rfl, hoperands⟩ := quantifierText_append_inj hq hq' hquantifier
      simp only [List.cons.injEq, true_and] at hoperands
      obtain ⟨hl, hsign⟩ := ihl hlhs hlhs' hoperands
      simp only [List.cons.injEq, true_and] at hsign
      obtain ⟨rfl, hright⟩ := sign_append_inj hsign
      simp only [List.cons.injEq, true_and] at hright
      obtain ⟨hr, hend⟩ := ihr hrhs hrhs' hright
      exact ⟨.formula c x y q hl hr, List.tail_eq_of_cons_eq hend⟩

/-- Texts do not show the offsets of stencils. -/
theorem SameUpToStencils.text_eq (h : SameUpToStencils a b) : a.text = b.text := by
  induction h with
  | link => rfl
  | stencils => rfl
  | formula c x y q _ _ ihl ihr => rw [text_formula, text_formula, ihl, ihr]

/-- Expressions are written alike exactly if they are the same tree up to stencils, with the same
connectives, kinds of links, variables in the same order and quantifiers. Their variables have no
sets, and names without delimiters. -/
theorem text_eq_iff (ha : ∀ v ∈ a.vars, v.Plain) (hb : ∀ v ∈ b.vars, v.Plain) :
    a.text = b.text ↔ SameUpToStencils a b := by
  constructor
  · intro h
    have hlist : a.text.toList ++ [] = b.text.toList ++ [] := by rw [h]
    exact (text_append_inj ha hb hlist).1
  · exact SameUpToStencils.text_eq

/-- A chain over variables whose names are empty, a keyword and a separator. -/
def keywordChain (s : Stencil) : OpenExpr :=
  formula .and (.unbound "") (.unbound "exist") (some (.unbound "|"))
    (link (.stencil s) (.unbound "") (.unbound "|"))
    (link .edgeToVertex (.unbound "|") (.unbound "exist"))

theorem plain_keywordChain (s : Stencil) : ∀ v ∈ (keywordChain s).vars, v.Plain := by
  have hempty : (Var.unbound "" : OpenVar).Plain := ⟨rfl, by simp [delimiters, Var.unbound]⟩
  have hkeyword : (Var.unbound "exist" : OpenVar).Plain := ⟨rfl, by simp [delimiters, Var.unbound]⟩
  have hbar : (Var.unbound "|" : OpenVar).Plain := ⟨rfl, by simp [delimiters, Var.unbound]⟩
  simp [keywordChain, vars, hempty, hkeyword, hbar]

/-- Stencils are not written, and names that look like notation are. -/
theorem text_eq_iff_keywordChain :
    let a := keywordChain (.star 1)
    let b := keywordChain (.star 2)
    a.Constructible ∧ b.Constructible ∧ (∀ v ∈ a.vars, v.Plain) ∧ (∀ v ∈ b.vars, v.Plain) ∧
      a.text = "(,exist) exist | | (vv(,|)) ∧ (ev(|,exist))" ∧ a.text = b.text ∧
        SameUpToStencils a b ∧ a ≠ b := by
  intro a b
  have ha : ∀ v ∈ a.vars, v.Plain := plain_keywordChain _
  have hb : ∀ v ∈ b.vars, v.Plain := plain_keywordChain _
  have hsame : SameUpToStencils a b := .formula _ _ _ _ (.stencils _ _ _ _) (.link _ _ _)
  refine ⟨constructible_iff_wellFormed.2 ?_, constructible_iff_wellFormed.2 ?_, ha, hb, ?_,
    (text_eq_iff ha hb).2 hsame, hsame, ?_⟩
  · exact ⟨rfl, trivial, trivial⟩
  · exact ⟨rfl, trivial, trivial⟩
  · decide +kernel
  · decide +kernel

end PathTree

end MeshPath
