import LoxLang.Proofs.Program.Node
import Mathlib.Data.List.Nodup

/-!
# How the nodes of a program are arranged

The nodes of a program are listed in the order in which they are visited, which is not the order
of the text: the value of an assignment comes before its target.  The two orders agree where it
matters, though.  A node that declares a name and a node in the scope of the declaration are
listed in the order in which they stand in the text.  This is so because an expression declares
nothing in the scopes around it, and only the parts of expressions are out of order.

The nodes of a piece of program are listed without gaps, and no node outside of the piece is in a
scope that is opened in it.

## Main definitions

* `Node.Under`, `Node.Apart` — a node is a part of what stands at a spot, or has nothing to do
  with the scopes that are opened there.
* `Arranged`, `ArrangedFrom` — how the nodes of a piece, or of some of its parts, are arranged.
* `Situated`, `SituatedFrom`, `Listed` — where a piece or a node is among all nodes.

## Main results

* `Expr.arranged`, `Stmt.arranged` and their companions.
* `Program.inOrder_nodes` — declarations are listed in the order of the text.
* `Program.situated` — the parts of a program are where they should be.
-/

namespace LoxLang

/-! ### Spots that are within and apart from others -/

/-- The scopes around a spot are different, and none of them is opened there or further in. -/
structure Spot.Proper (s : Spot) : Prop where
  /-- They are different. -/
  nodup : s.scopes.Nodup
  /-- They are opened further out. -/
  outside : ∀ σ ∈ s.scopes, ¬ s.path <+: σ.path

/-- A node is a part of what stands at a spot: its scopes are those around the spot and others
that are opened there or further in. -/
structure Node.Under (s : Spot) (n : Node) : Prop where
  /-- The way to the node leads through the spot. -/
  path : s.path <+: n.spot.path
  /-- The scopes around it. -/
  scopes : ∃ inner, n.spot.scopes = inner ++ s.scopes ∧ ∀ σ ∈ inner, s.path <+: σ.path

/-- A node is in no scope that is opened at a spot or further in. -/
def Node.Apart (s : Spot) (n : Node) : Prop := ∀ σ ∈ n.spot.scopes, ¬ s.path <+: σ.path

/-- A spot is inside of a scope that is opened at another one. -/
def Spot.Opens (s q : Spot) : Prop :=
  q.path = s.path ∧ ∃ kind, q.scopes = ⟨kind, s.path⟩ :: s.scopes

section Spot

variable {s q : Spot} {n : Node} {i j : Nat}

theorem Spot.opens_inside (s : Spot) (kind : ScopeKind) : s.Opens (s.inside kind) :=
  ⟨rfl, kind, rfl⟩

theorem Spot.opens_enter (s : Spot) (body : Enclosure) : s.Opens (s.enter body) :=
  ⟨rfl, .function, rfl⟩

theorem Spot.Proper.top (i : Nat) : (Spot.top.part i).Proper :=
  ⟨List.nodup_nil, fun _ h => absurd h List.not_mem_nil⟩

theorem Spot.Proper.part (h : s.Proper) (i : Nat) : (s.part i).Proper :=
  ⟨h.nodup, fun σ hσ hp => h.outside σ hσ (Path.of_part hp)⟩

theorem Spot.Proper.loop (h : s.Proper) : s.loop.Proper := ⟨h.nodup, h.outside⟩

/-- The parts of what is inside of a scope that is opened at a spot. -/
theorem Spot.Proper.opens (h : s.Proper) (hq : s.Opens q) (i : Nat) : (q.part i).Proper := by
  obtain ⟨hpath, kind, hscopes⟩ := hq
  constructor
  · show q.scopes.Nodup
    rw [hscopes, List.nodup_cons]
    exact ⟨fun hmem => h.outside _ hmem List.prefix_rfl, h.nodup⟩
  · show ∀ σ ∈ q.scopes, ¬ q.path ++ [i] <+: σ.path
    rw [hscopes, hpath, List.forall_mem_cons]
    exact ⟨Path.not_part_self, fun σ hσ hp => h.outside σ hσ (Path.of_part hp)⟩

theorem Node.Under.self (s : Spot) (kind : NodeKind) : (Node.mk s kind).Under s :=
  ⟨List.prefix_rfl, [], rfl, fun _ h => absurd h List.not_mem_nil⟩

theorem Node.Under.of_part (h : n.Under (s.part i)) : n.Under s := by
  obtain ⟨hpath, inner, heq, hinner⟩ := h
  exact ⟨Path.of_part hpath, inner, heq, fun σ hσ => Path.of_part (hinner σ hσ)⟩

/-- What is inside of a scope that is opened at a spot is in more scopes than the spot. -/
theorem Node.Under.exists_scopes (hq : s.Opens q) (h : n.Under (q.part i)) :
    ∃ inner, inner ≠ [] ∧ n.spot.scopes = inner ++ s.scopes ∧ ∀ σ ∈ inner, s.path <+: σ.path := by
  obtain ⟨inner, heq, hinner⟩ := h.of_part.scopes
  obtain ⟨hqs, kind, hscopes⟩ := hq
  rw [hqs] at hinner
  refine ⟨inner ++ [⟨kind, s.path⟩], by simp, ?_, ?_⟩
  · rw [heq, hscopes, List.append_assoc]
    rfl
  · intro σ hσ
    rcases List.mem_append.mp hσ with hσ | hσ
    · exact hinner σ hσ
    · rw [List.mem_singleton.mp hσ]

theorem Node.Under.of_opens (hq : s.Opens q) (h : n.Under (q.part i)) : n.Under s := by
  obtain ⟨inner, -, heq, hinner⟩ := h.exists_scopes hq
  exact ⟨hq.1 ▸ h.of_part.path, inner, heq, hinner⟩

/-- What is in one part has nothing to do with the scopes of another part. -/
theorem Node.Under.apart (h : n.Under (q.part i)) (hij : i ≠ j) (hq : (q.part j).Proper) :
    n.Apart (q.part j) := by
  obtain ⟨inner, heq, hinner⟩ := h.scopes
  intro σ hσ hp
  rw [heq] at hσ
  rcases List.mem_append.mp hσ with hσ | hσ
  · exact hij (Path.eq_of_parts (hinner σ hσ) hp)
  · exact hq.outside σ hσ hp

/-- A node at a spot has nothing to do with the scopes that are opened there. -/
theorem Spot.Proper.apart_self (h : s.Proper) (kind : NodeKind) : (Node.mk s kind).Apart s :=
  h.outside

theorem Node.Apart.part (h : n.Apart s) (i : Nat) : n.Apart (s.part i) :=
  fun σ hσ hp => h σ hσ (Path.of_part hp)

end Spot

/-! ### How the nodes of a piece are arranged -/

/-- If a node declares a name, then in a scope that is opened at a spot or further in. -/
def Node.DeclaresWithin (s : Spot) (n : Node) : Prop :=
  n.kind.declared?.isSome → ∀ σ ∈ n.scope?, s.path <+: σ.path

/-- How the nodes of a piece that stands at a spot are arranged; a `closed` piece declares
nothing in the scopes around it. -/
structure Arranged (closed : Bool) (s : Spot) (ns : List Node) : Prop where
  /-- They are parts of the piece. -/
  under : ∀ n ∈ ns, n.Under s
  /-- They are in the order of the text, as far as it matters. -/
  inOrder : ns.Pairwise Node.InOrder
  /-- A closed piece declares nothing in the scopes around it. -/
  within : closed = true → ∀ n ∈ ns, n.DeclaresWithin s

/-- How the nodes of parts of what stands at a spot are arranged, from a number on. -/
structure ArrangedFrom (closed : Bool) (q : Spot) (i : Nat) (ns : List Node) : Prop where
  /-- They are in those parts. -/
  under : ∀ n ∈ ns, ∃ j, i ≤ j ∧ n.Under (q.part j) ∧ (closed = true → n.DeclaresWithin (q.part j))
  /-- They are in the order of the text, as far as it matters. -/
  inOrder : ns.Pairwise Node.InOrder

section Arranged

variable {closed : Bool} {s q : Spot} {ms ns : List Node} {i j : Nat}

namespace ArrangedFrom

theorem nil : ArrangedFrom closed q i [] := ⟨fun _ h => absurd h List.not_mem_nil, .nil⟩

/-- A part and those behind it. -/
theorem append (h : Arranged closed (q.part i) ms) (h' : ArrangedFrom closed q j ns)
    (hij : i < j) : ArrangedFrom closed q i (ms ++ ns) := by
  constructor
  · intro n hn
    rcases List.mem_append.mp hn with hn | hn
    · exact ⟨i, Nat.le_refl i, h.under n hn, fun hc => h.within hc n hn⟩
    · obtain ⟨k, hk, hunder⟩ := h'.under n hn
      exact ⟨k, by omega, hunder⟩
  · rw [List.pairwise_append]
    refine ⟨h.inOrder, h'.inOrder, fun m hm n hn _ => ?_⟩
    obtain ⟨k, hk, hunder, -⟩ := h'.under n hn
    exact Path.lt_of_parts (h.under m hm).path hunder.path (by omega)

theorem of_part (h : Arranged closed (q.part i) ms) : ArrangedFrom closed q i ms := by
  rw [← List.append_nil ms]
  exact append h nil (Nat.lt_succ_self i)

theorem lt (h : ArrangedFrom closed q i ns) : ∀ n ∈ ns, q.path < n.spot.path := by
  intro n hn
  obtain ⟨j, -, hunder, -⟩ := h.under n hn
  exact Path.lt_of_part hunder.path

theorem arranged (h : ArrangedFrom closed s i ns) : Arranged closed s ns := by
  refine ⟨fun n hn => ?_, h.inOrder, fun hc n hn hd σ hσ => ?_⟩
  · obtain ⟨j, -, hunder, -⟩ := h.under n hn
    exact hunder.of_part
  · obtain ⟨j, -, -, hwithin⟩ := h.under n hn
    exact Path.of_part (hwithin hc hd σ hσ)

/-- What is inside of a scope declares nothing outside of it. -/
theorem opened (h : ArrangedFrom closed q i ns) (hq : s.Opens q) : Arranged true s ns := by
  refine ⟨fun n hn => ?_, h.inOrder, fun _ n hn _ σ hσ => ?_⟩
  · obtain ⟨j, -, hunder, -⟩ := h.under n hn
    exact hunder.of_opens hq
  · obtain ⟨j, -, hunder, -⟩ := h.under n hn
    obtain ⟨inner, hne, heq, hinner⟩ := hunder.exists_scopes hq
    rw [Node.scope?, heq, List.head?_append_of_ne_nil _ hne] at hσ
    exact hinner σ (List.mem_of_mem_head? hσ)

end ArrangedFrom

namespace Arranged

theorem part (h : Arranged closed (s.part i) ns) : Arranged closed s ns :=
  (ArrangedFrom.of_part h).arranged

theorem loop (h : Arranged closed s.loop ns) : Arranged closed s ns :=
  ⟨fun n hn => ⟨(h.under n hn).path, (h.under n hn).scopes⟩, h.inOrder, h.within⟩

theorem weaken (h : Arranged closed s ns) : Arranged false s ns :=
  ⟨h.under, h.inOrder, fun hc => absurd hc Bool.false_ne_true⟩

/-- A node in front of its parts. -/
theorem cons {kind : NodeKind} (h : Arranged closed s ns) (hlt : ∀ n ∈ ns, s.path < n.spot.path)
    (hkind : closed = true → kind.declared? = none) : Arranged closed s (⟨s, kind⟩ :: ns) where
  under := List.forall_mem_cons.mpr ⟨.self s kind, h.under⟩
  inOrder := List.pairwise_cons.mpr ⟨fun n hn _ => hlt n hn, h.inOrder⟩
  within hc := by
    refine List.forall_mem_cons.mpr ⟨fun hd => ?_, h.within hc⟩
    rw [hkind hc] at hd
    cases hd

theorem nil : Arranged closed s [] := (ArrangedFrom.nil (i := 0)).arranged

theorem single {kind : NodeKind} (hkind : closed = true → kind.declared? = none) :
    Arranged closed s [⟨s, kind⟩] :=
  nil.cons (fun _ h => absurd h List.not_mem_nil) hkind

/-- Closed parts may be listed in another order. -/
theorem append_closed (h : Arranged true (s.part i) ms) (h' : Arranged true (s.part j) ns)
    (hij : i ≠ j) (hs : s.Proper) : Arranged true s (ms ++ ns) := by
  have hnot : ∀ {ms ns : List Node} {i j : Nat}, Arranged true (s.part i) ms →
      Arranged true (s.part j) ns → i ≠ j → ∀ m ∈ ms, ∀ n ∈ ns, ¬ m.DeclaresAround n := by
    rintro ms ns i j hms hns hij m hm n hn ⟨hd, σ, hσ, hmem⟩
    exact (hns.under n hn).apart hij.symm (hs.part i) σ hmem (hms.within rfl m hm hd σ hσ)
  refine ⟨List.forall_mem_append.mpr ⟨h.part.under, h'.part.under⟩, ?_,
    fun _ => List.forall_mem_append.mpr ⟨h.part.within rfl, h'.part.within rfl⟩⟩
  rw [List.pairwise_append]
  refine ⟨h.inOrder, h'.inOrder, fun m hm n hn haround => ?_⟩
  rcases haround with haround | haround
  · exact absurd haround (hnot h h' hij m hm n hn)
  · exact absurd haround (hnot h' h hij.symm n hn m hm)

/-- A node behind its closed parts. -/
theorem concat {kind : NodeKind} (h : Arranged true (s.part i) ns) (hs : s.Proper)
    (hkind : kind.declared? = none) : Arranged true s (ns ++ [⟨s, kind⟩]) := by
  have hsingle : Arranged true s [⟨s, kind⟩] := .single fun _ => hkind
  refine ⟨List.forall_mem_append.mpr ⟨h.part.under, hsingle.under⟩, ?_,
    fun _ => List.forall_mem_append.mpr ⟨h.part.within rfl, hsingle.within rfl⟩⟩
  rw [List.pairwise_append]
  refine ⟨h.inOrder, hsingle.inOrder, fun m hm n hn haround => ?_⟩
  cases List.mem_singleton.mp hn
  rcases haround with ⟨hd, σ, hσ, hmem⟩ | ⟨hd, -⟩
  · exact absurd (h.part.within rfl m hm hd σ hσ) (hs.outside σ hmem)
  · rw [hkind] at hd
    cases hd

end Arranged

theorem paramsArranged (params : List Token) (q : Spot) (i : Nat) :
    ArrangedFrom false q i (paramNodes params q i) := by
  induction params generalizing i with
  | nil => exact .nil
  | cons t ts ih =>
    have hfirst : Arranged false (q.part i) [⟨q.part i, .parameter t⟩] :=
      .single fun h => absurd h Bool.false_ne_true
    exact .append hfirst (ih (i + 1)) (Nat.lt_succ_self i)

theorem superclassArranged (superclass : Option Token) (s : Spot) :
    Arranged false s (superclass.toList.map fun t => ⟨s, .variable t⟩) := by
  cases superclass with
  | none => exact .nil
  | some t => exact .single fun _ => rfl

mutual

/-- The nodes of an expression. -/
theorem Expr.arranged : ∀ (e : Expr) {s : Spot}, s.Proper → Arranged true s (e.nodes s)
  | .literal _, _, _ => .nil
  | .grouping e, _, h => (e.arranged (h.part 0)).part
  | .unary _ e, _, h => (e.arranged (h.part 0)).part
  | .binary l _ r, _, h =>
      (ArrangedFrom.append (l.arranged (h.part 0)) (.of_part (r.arranged (h.part 1)))
        (Nat.lt_succ_self 0)).arranged
  | .logical l _ r, _, h =>
      (ArrangedFrom.append (l.arranged (h.part 0)) (.of_part (r.arranged (h.part 1)))
        (Nat.lt_succ_self 0)).arranged
  | .conditional c t e, _, h => by
      have hrest := ArrangedFrom.append (t.arranged (h.part 1))
        (.of_part (e.arranged (h.part 2))) (Nat.lt_succ_self 1)
      exact (ArrangedFrom.append (c.arranged (h.part 0)) hrest (Nat.lt_succ_self 0)).arranged
  | .assign _ value, _, h => (value.arranged (h.part 0)).concat h rfl
  | .variable _, _, _ => .single fun _ => rfl
  | .call callee _ arguments, _, h => by
      have hargs := (exprsArranged arguments (h.part 1).part 0).arranged
      exact (ArrangedFrom.append (callee.arranged (h.part 0)) (.of_part hargs)
        (Nat.lt_succ_self 0)).arranged
  | .get object _, _, h => (object.arranged (h.part 0)).part
  | .set object _ value, _, h =>
      (value.arranged (h.part 1)).append_closed (object.arranged (h.part 0)) Nat.one_ne_zero h
  | .this _, _, _ => .single fun _ => rfl
  | .lambda _ params body, s, h => by
      have hproper := h.opens (s.opens_enter .function)
      have hbody := (stmtsArranged body (hproper 1).part 0).arranged
      exact (ArrangedFrom.append (paramsArranged params _ 0).arranged (.of_part hbody)
        (Nat.lt_succ_self 0)).opened (s.opens_enter .function)

/-- The nodes of expressions. -/
theorem exprsArranged : ∀ (es : List Expr) {q : Spot}, (∀ i, (q.part i).Proper) → ∀ i,
    ArrangedFrom true q i (exprsNodes es q i)
  | [], _, _, _ => .nil
  | e :: es, _, h, i =>
      .append (e.arranged (h i)) (exprsArranged es h (i + 1)) (Nat.lt_succ_self i)

/-- The nodes of a statement. -/
theorem Stmt.arranged : ∀ (t : Stmt) {s : Spot}, s.Proper → Arranged false s (t.nodes s)
  | .expression e, _, h => (e.arranged (h.part 0)).part.weaken
  | .print e, _, h => (e.arranged (h.part 0)).part.weaken
  | .var _ none, _, _ => .single fun h => absurd h Bool.false_ne_true
  | .var _ (some e), _, h => by
      have he := ArrangedFrom.of_part (e.arranged (h.part 0)).weaken
      exact he.arranged.cons he.lt fun h => absurd h Bool.false_ne_true
  | .block _ body, s, h =>
      ((stmtsArranged body (h.opens (s.opens_inside .block)) 0).opened
        (s.opens_inside .block)).weaken
  | .ifElse c t none, _, h =>
      (ArrangedFrom.append (c.arranged (h.part 0)).weaken (.of_part (t.arranged (h.part 1)))
        (Nat.lt_succ_self 0)).arranged
  | .ifElse c t (some e), _, h => by
      have hrest := ArrangedFrom.append (t.arranged (h.part 1))
        (.of_part (e.arranged (h.part 2))) (Nat.lt_succ_self 1)
      exact (ArrangedFrom.append (c.arranged (h.part 0)).weaken hrest
        (Nat.lt_succ_self 0)).arranged
  | .while c body none, _, h =>
      (ArrangedFrom.append (c.arranged (h.part 0)).weaken
        (.of_part (body.arranged (h.part 1).loop).loop) (Nat.lt_succ_self 0)).arranged
  | .while c body (some i), _, h => by
      have hrest := ArrangedFrom.append (body.arranged (h.part 1).loop).loop
        (.of_part (i.arranged (h.part 2)).weaken) (Nat.lt_succ_self 1)
      exact (ArrangedFrom.append (c.arranged (h.part 0)).weaken hrest
        (Nat.lt_succ_self 0)).arranged
  | .break _, _, _ => .single fun _ => rfl
  | .continue _, _, _ => .single fun _ => rfl
  | .function f, s, h => by
      have hf := f.arranged .function h
      exact (hf.opened (s.opens_enter .function)).weaken.cons hf.lt
        fun h => absurd h Bool.false_ne_true
  | .return _ none, _, _ => .single fun _ => rfl
  | .return _ (some e), _, h => by
      have he := ArrangedFrom.of_part (e.arranged (h.part 0)).weaken
      exact he.arranged.cons he.lt fun _ => rfl
  | .classDecl name superclass methods statics, s, h => by
      have hsuper := superclassArranged superclass (s.part 0)
      have hstatics := (functionsArranged statics .staticMethod (h.part 1).part 0).arranged.weaken
      have hmethods := (functionsArranged methods .method
        ((h.part 2).opens ((s.part 2).opens_inside .receiver)) 0).opened
          ((s.part 2).opens_inside .receiver)
      have hmembers := ArrangedFrom.append hstatics (.of_part hmethods.weaken)
        (Nat.lt_succ_self 1)
      have hparts := ArrangedFrom.append hsuper hmembers (Nat.lt_succ_self 0)
      exact hparts.arranged.cons hparts.lt fun h => absurd h Bool.false_ne_true

/-- The nodes of statements. -/
theorem stmtsArranged : ∀ (ts : List Stmt) {q : Spot}, (∀ i, (q.part i).Proper) → ∀ i,
    ArrangedFrom false q i (stmtsNodes ts q i)
  | [], _, _, _ => .nil
  | t :: ts, _, h, i =>
      .append (t.arranged (h i)) (stmtsArranged ts h (i + 1)) (Nat.lt_succ_self i)

/-- The nodes of a function, from the inside. -/
theorem FunctionDecl.arranged : ∀ (f : FunctionDecl) (c : Enclosure) {s : Spot}, s.Proper →
    ArrangedFrom false (s.enter c) 0 (f.nodes c s)
  | .mk _ params body, c, s, h => by
      have hproper := h.opens (s.opens_enter c)
      have hbody := (stmtsArranged body (hproper 1).part 0).arranged
      exact .append (paramsArranged params _ 0).arranged (.of_part hbody)
        (Nat.lt_succ_self 0)

/-- The nodes of functions. -/
theorem functionsArranged : ∀ (fs : List FunctionDecl) (c : Enclosure) {q : Spot},
    (∀ i, (q.part i).Proper) → ∀ i, ArrangedFrom true q i (functionsNodes fs c q i)
  | [], _, _, _, _ => .nil
  | f :: fs, c, q, h, i =>
      .append ((f.arranged c (h i)).opened ((q.part i).opens_enter c))
        (functionsArranged fs c h (i + 1)) (Nat.lt_succ_self i)

end

/-- **Declarations are listed in the order of the text**, together with what is in their scope. -/
theorem Program.inOrder_nodes (program : Program) : program.nodes.Pairwise Node.InOrder :=
  (stmtsArranged program Spot.Proper.top 0).inOrder

/-! ### Pieces among the nodes of a program -/

/-- The nodes `ns` of a piece at a spot are listed in `all` behind `pre`, and no other node is in
a scope that the piece opens. -/
structure Situated (all pre : List Node) (s : Spot) (ns : List Node) : Prop where
  /-- All nodes are in the order of the text, as far as it matters. -/
  inOrder : all.Pairwise Node.InOrder
  /-- The scopes around the spot are as they should be. -/
  proper : s.Proper
  /-- What is in front of the piece and behind it. -/
  split : ∃ post, all = pre ++ (ns ++ post) ∧ ∀ n, n ∈ pre ∨ n ∈ post → n.Apart s

/-- The same about the parts of what stands at a spot, from a number on. -/
structure SituatedFrom (all pre : List Node) (q : Spot) (i : Nat) (ns : List Node) : Prop where
  /-- All nodes are in the order of the text, as far as it matters. -/
  inOrder : all.Pairwise Node.InOrder
  /-- The scopes around the parts are as they should be. -/
  proper : ∀ j, (q.part j).Proper
  /-- What is in front of the parts and behind them. -/
  split : ∃ post, all = pre ++ (ns ++ post)
    ∧ ∀ n, n ∈ pre ∨ n ∈ post → ∀ j, i ≤ j → n.Apart (q.part j)

/-- A node is listed in `all` behind `pre`. -/
structure Listed (all pre : List Node) (n : Node) : Prop where
  /-- All nodes are in the order of the text, as far as it matters. -/
  inOrder : all.Pairwise Node.InOrder
  /-- The scopes around the node are different. -/
  nodup : n.spot.scopes.Nodup
  /-- What is in front of the node and behind it. -/
  split : ∃ post, all = pre ++ n :: post

section Situated

variable {all pre : List Node} {k : Nat}

theorem Situated.parts (h : Situated all pre s ns) : SituatedFrom all pre s 0 ns := by
  obtain ⟨post, hsplit, hapart⟩ := h.split
  exact ⟨h.inOrder, h.proper.part, post, hsplit, fun n hn j _ => (hapart n hn).part j⟩

theorem Situated.opened (h : Situated all pre s ns) (hq : s.Opens q) :
    SituatedFrom all pre q 0 ns := by
  obtain ⟨post, hsplit, hapart⟩ := h.split
  refine ⟨h.inOrder, h.proper.opens hq, post, hsplit, fun n hn j _ σ hσ hp => ?_⟩
  exact hapart n hn σ hσ (hq.1 ▸ Path.of_part hp)

theorem Situated.loop (h : Situated all pre s ns) : Situated all pre s.loop ns :=
  ⟨h.inOrder, h.proper.loop, h.split⟩

/-- The parts of a node that is listed in front of them. -/
theorem Situated.tail {kind : NodeKind} (h : Situated all pre s (⟨s, kind⟩ :: ns)) :
    Situated all (pre ++ [⟨s, kind⟩]) s ns := by
  obtain ⟨post, hsplit, hapart⟩ := h.split
  refine ⟨h.inOrder, h.proper, post, by rw [hsplit, List.append_assoc]; rfl, fun n hn => ?_⟩
  rcases hn with hn | hn
  · rcases List.mem_append.mp hn with hn | hn
    · exact hapart n (.inl hn)
    · rw [List.mem_singleton.mp hn]
      exact h.proper.apart_self kind
  · exact hapart n (.inr hn)

/-- A node in front of its parts. -/
theorem Situated.head {kind : NodeKind} (h : Situated all pre s (⟨s, kind⟩ :: ns)) :
    Listed all pre ⟨s, kind⟩ := by
  obtain ⟨post, hsplit, -⟩ := h.split
  exact ⟨h.inOrder, h.proper.nodup, ns ++ post, hsplit⟩

/-- A node behind its parts. -/
theorem Situated.last {kind : NodeKind} (h : Situated all pre s (ns ++ [⟨s, kind⟩])) :
    Listed all (pre ++ ns) ⟨s, kind⟩ := by
  obtain ⟨post, hsplit, -⟩ := h.split
  exact ⟨h.inOrder, h.proper.nodup, post, by rw [hsplit]; simp only [List.append_assoc]; rfl⟩

/-- The parts of a node that is listed behind them. -/
theorem Situated.init {kind : NodeKind} (h : Situated all pre s (ns ++ [⟨s, kind⟩])) :
    Situated all pre s ns := by
  obtain ⟨post, hsplit, hapart⟩ := h.split
  refine ⟨h.inOrder, h.proper, ⟨s, kind⟩ :: post, by rw [hsplit, List.append_assoc]; rfl,
    fun n hn => ?_⟩
  rcases hn with hn | hn
  · exact hapart n (.inl hn)
  · rcases List.mem_cons.mp hn with rfl | hn
    · exact h.proper.apart_self kind
    · exact hapart n (.inr hn)

namespace SituatedFrom

/-- One part, with another one behind it in the list. -/
theorem left (h : SituatedFrom all pre q k (ms ++ ns)) (hns : Arranged closed (q.part j) ns)
    (hij : i ≠ j) (hi : k ≤ i) : Situated all pre (q.part i) ms := by
  obtain ⟨post, hsplit, hapart⟩ := h.split
  refine ⟨h.inOrder, h.proper i, ns ++ post, by rw [hsplit, List.append_assoc],
    fun n hn => ?_⟩
  rcases hn with hn | hn
  · exact hapart n (.inl hn) i hi
  · rcases List.mem_append.mp hn with hn | hn
    · exact (hns.under n hn).apart hij.symm (h.proper i)
    · exact hapart n (.inr hn) i hi

/-- One part, with another one in front of it in the list. -/
theorem right (h : SituatedFrom all pre q k (ms ++ ns)) (hms : Arranged closed (q.part i) ms)
    (hij : i ≠ j) (hj : k ≤ j) : Situated all (pre ++ ms) (q.part j) ns := by
  obtain ⟨post, hsplit, hapart⟩ := h.split
  refine ⟨h.inOrder, h.proper j, post, by rw [hsplit]; simp only [List.append_assoc],
    fun n hn => ?_⟩
  rcases hn with hn | hn
  · rcases List.mem_append.mp hn with hn | hn
    · exact hapart n (.inl hn) j hj
    · exact (hms.under n hn).apart hij (h.proper j)
  · exact hapart n (.inr hn) j hj

/-- The first part, with those behind it. -/
theorem first (h : SituatedFrom all pre q i (ms ++ ns))
    (hns : ArrangedFrom closed q (i + 1) ns) : Situated all pre (q.part i) ms := by
  obtain ⟨post, hsplit, hapart⟩ := h.split
  refine ⟨h.inOrder, h.proper i, ns ++ post, by rw [hsplit, List.append_assoc],
    fun n hn => ?_⟩
  rcases hn with hn | hn
  · exact hapart n (.inl hn) i (Nat.le_refl i)
  · rcases List.mem_append.mp hn with hn | hn
    · obtain ⟨j, hj, hunder, -⟩ := hns.under n hn
      exact hunder.apart (by omega) (h.proper i)
    · exact hapart n (.inr hn) i (Nat.le_refl i)

/-- The parts behind the first one. -/
theorem rest (h : SituatedFrom all pre q i (ms ++ ns)) (hms : Arranged closed (q.part i) ms) :
    SituatedFrom all (pre ++ ms) q (i + 1) ns := by
  obtain ⟨post, hsplit, hapart⟩ := h.split
  refine ⟨h.inOrder, h.proper, post, by rw [hsplit]; simp only [List.append_assoc],
    fun n hn j hj => ?_⟩
  rcases hn with hn | hn
  · rcases List.mem_append.mp hn with hn | hn
    · exact hapart n (.inl hn) j (by omega)
    · exact (hms.under n hn).apart (by omega) (h.proper j)
  · exact hapart n (.inr hn) j (by omega)

/-- The last part. -/
theorem last (h : SituatedFrom all pre q i ns) : Situated all pre (q.part i) ns := by
  obtain ⟨post, hsplit, hapart⟩ := h.split
  exact ⟨h.inOrder, h.proper i, post, hsplit, fun n hn => hapart n hn i (Nat.le_refl i)⟩

end SituatedFrom

/-- A program is all there is. -/
theorem Program.situated (program : Program) :
    SituatedFrom program.nodes [] .top 0 program.nodes := by
  refine ⟨program.inOrder_nodes, Spot.Proper.top, [], by simp, fun n hn => ?_⟩
  rcases hn with hn | hn <;> exact absurd hn List.not_mem_nil

end Situated

end Arranged

end LoxLang
