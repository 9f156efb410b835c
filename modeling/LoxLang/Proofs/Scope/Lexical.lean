import LoxLang.Proofs.Program.Arrangement
import LoxLang.Scope.Analysis

/-!
# The lexical rules

What the analysis of scopes ought to say about a program, read off the program's nodes and the
text alone, without a walk.  A name that is looked up belongs to the innermost scope around the
node that declares it earlier in the text, or in a construct that the node is a part of; `this` is
declared around the methods of a class.  Keywords make sense in a loop, a function or a method
only, a name is declared once in a scope, and a local name is worth a remark if no node of the
program refers to it.

The second half is about what a scope knows when some of the nodes have been listed: which names
have been declared in it and which of them have been referred to.  Because declarations are listed
in the order of the text, a scope has declared a name by the time a node is listed if and only if
it declares the name earlier in the text.

## Main definitions

* `LexicalScope.holds`, `Spot.distance`, `Spot.resolve` — where a name belongs.
* `Node.found`, `Node.misplaced`, `Node.redeclared`, `Node.unused` — what is to be said about a
  node.
* `LexicalScope.tally` — what a scope knows after some nodes.

## Main results

* `LexicalScope.contains_tally_eq_holds` — the names that a scope knows at a node.
* `LexicalScope.remarks_tally` — the names that a scope finds unused in the end.
-/

namespace LoxLang

/-! ### Where a name belongs -/

/-- Whether a node declares a name in a scope. -/
def Node.declares (n : Node) (σ : LexicalScope) (x : String) : Bool :=
  n.scope? == some σ && n.kind.declared?.any fun t => t.lexeme == x

/-- Whether a scope declares a name before a point of the text; `all` are the nodes of the
program. -/
def LexicalScope.holds (all : List Node) (p : Path) (x : String) (σ : LexicalScope) : Bool :=
  (σ.kind == .receiver && x == "this")
    || all.any fun d => d.declares σ x && decide (d.spot.path < p)

/-- The scope to which a name belongs that is looked up at a spot. -/
def Spot.resolve (s : Spot) (all : List Node) (x : String) : Option LexicalScope :=
  s.scopes.find? (LexicalScope.holds all s.path x)

/-- How many scopes are passed on the way to the scope to which a name belongs. -/
def Spot.distance (s : Spot) (all : List Node) (x : String) : Option Nat :=
  s.scopes.findIdx? (LexicalScope.holds all s.path x)

/-- The name that a node looks up.  Only in the methods of a class, `this` is one. -/
def Node.lookup? (n : Node) : Option Token :=
  match n.kind with
  | .variable name | .assign name => some name
  | .this keyword => if n.spot.member? = some .method then some keyword else none
  | _ => none

/-- Whether a node refers to a name of a scope. -/
def Node.refersTo (all : List Node) (σ : LexicalScope) (x : String) (n : Node) : Bool :=
  n.lookup?.any fun t => t.lexeme == x && n.spot.resolve all x == some σ

/-! ### What is to be said about a node -/

/-- The name that a node looks up, with its distance. -/
def Node.found (all : List Node) (n : Node) : Option (Token × Option Nat) :=
  n.lookup?.map fun t => (t, n.spot.distance all t.lexeme)

/-- What is wrong with the place of a node. -/
def Node.misplaced (n : Node) : Option ScopeFault :=
  match n.kind with
  | .break keyword => if n.spot.inLoop then none else some ⟨.strayBreak, keyword⟩
  | .continue keyword => if n.spot.inLoop then none else some ⟨.strayContinue, keyword⟩
  | .return keyword => if n.spot.inFunction then none else some ⟨.strayReturn, keyword⟩
  | .this keyword =>
      match n.spot.member? with
      | none => some ⟨.strayThis, keyword⟩
      | some .staticMethod => some ⟨.staticThis, keyword⟩
      | some _ => none
  | .classDecl name (some superclass) =>
      if superclass.lexeme = name.lexeme then some ⟨.inheritsItself, superclass⟩ else none
  | _ => none

/-- A name is declared in a scope that declares it already. -/
def Node.redeclared (all : List Node) (n : Node) : Option ScopeFault :=
  match n.kind.declared?, n.scope? with
  | some name, some σ =>
      if σ.holds all n.spot.path name.lexeme then some ⟨.redeclared, name⟩ else none
  | _, _ => none

/-- The name that a node declares, if it deserves a remark when nothing refers to it: parameters
do not. -/
def NodeKind.watched? : NodeKind → Option Token
  | .var name | .function name | .classDecl name _ => some name
  | _ => none

/-- A local name is declared to which no node of the program refers. -/
def Node.unused (all : List Node) (n : Node) : Option (String × Token) :=
  match n.kind.watched?, n.scope? with
  | some name, some σ =>
      if all.any (Node.refersTo all σ name.lexeme) then none else some (name.lexeme, name)
  | _, _ => none

/-! ### Tables of other values -/

namespace Table

variable {κ α β : Type} [DecidableEq κ]

/-- A table with other values. -/
def map (f : α → β) (t : Table κ α) : Table κ β := ⟨t.entries.map fun e => (e.1, f e.2)⟩

@[simp] theorem find?_map (f : α → β) (t : Table κ α) (k : κ) :
    (t.map f).find? k = (t.find? k).map f := search_map f k t.entries

@[simp] theorem contains_map (f : α → β) (t : Table κ α) (k : κ) :
    (t.map f).contains k = t.contains k := by
  rw [contains, find?_map, Option.isSome_map, contains]

@[simp] theorem map_insert (f : α → β) (t : Table κ α) (k : κ) (a : α) :
    (t.insert k a).map f = (t.map f).insert k (f a) := by
  obtain ⟨es⟩ := t
  refine congrArg Table.mk ?_
  show (place k a es).map _ = place k (f a) (es.map _)
  induction es with
  | nil => rfl
  | cons e es ih =>
    obtain ⟨k₀, a₀⟩ := e
    by_cases h : k₀ = k
    · simp [place, h]
    · simp [place, h, ih]

theorem nodup_keys_insert {t : Table κ α} (h : t.keys.Nodup) (k : κ) (a : α) :
    (t.insert k a).keys.Nodup := by
  rw [keys_insert]
  split
  · exact h
  · next hk => exact List.nodup_append.mpr ⟨h, List.nodup_singleton k, by
      rintro k₁ hk₁ k₂ hk₂ rfl
      exact hk (List.mem_singleton.mp hk₂ ▸ hk₁)⟩

theorem nodup_keys_modify {t : Table κ α} (h : t.keys.Nodup) (k : κ) (g : α → α) :
    (t.modify k g).keys.Nodup := by
  unfold modify
  split
  · exact nodup_keys_insert h k _
  · exact h

/-- If no key comes twice, the entry under a key is all that changes. -/
theorem entries_modify {t : Table κ α} (h : t.keys.Nodup) (k : κ) (g : α → α) :
    (t.modify k g).entries = t.entries.map fun e => if e.1 = k then (e.1, g e.2) else e := by
  obtain ⟨es⟩ := t
  have hstay : ∀ es : List (κ × α), k ∉ es.map Prod.fst →
      (es.map fun e => if e.1 = k then (e.1, g e.2) else e) = es := by
    intro es hk
    refine (List.map_congr_left fun e he => if_neg ?_).trans (List.map_id es)
    rintro rfl
    exact hk (List.mem_map_of_mem he)
  unfold modify
  split
  · next a ha =>
    show place k (g a) es = _
    change search k es = some a at ha
    change (es.map Prod.fst).Nodup at h
    induction es with
    | nil => cases ha
    | cons e es ih =>
      obtain ⟨k₀, a₀⟩ := e
      rw [List.map_cons, List.nodup_cons] at h
      by_cases h₀ : k₀ = k
      · subst h₀
        rw [search, if_pos rfl] at ha
        cases ha
        rw [place, if_pos rfl, List.map_cons, if_pos rfl, hstay es h.1]
      · rw [search, if_neg h₀] at ha
        rw [place, if_neg h₀, List.map_cons, if_neg h₀, ih ha h.2]
  · next hnone => exact (hstay es ((search_eq_none_iff k es).mp hnone)).symm

end Table

/-! ### What a scope knows -/

/-- What a scope knows about a name that deserves a remark: the token that declares it, and
whether something has referred to it. -/
abbrev Mention := Option (Token × Bool)

/-- Something refers to a name. -/
def Mention.use (m : Mention) : Mention := m.map fun (t, _) => (t, true)

/-- What a scope knows at first. -/
def LexicalScope.initial (σ : LexicalScope) : Table String Mention :=
  if σ.kind = .receiver then Table.empty.insert "this" none else .empty

/-- What a scope learns from a node. -/
def LexicalScope.learn (all : List Node) (σ : LexicalScope) (t : Table String Mention)
    (n : Node) : Table String Mention :=
  match n.kind.declared?, n.lookup? with
  | some name, _ =>
      if n.scope? = some σ then t.insert name.lexeme (n.kind.watched?.map (·, false)) else t
  | none, some name =>
      if n.spot.resolve all name.lexeme = some σ then t.modify name.lexeme Mention.use else t
  | none, none => t

/-- What a scope knows after some nodes. -/
def LexicalScope.tally (all : List Node) (ns : List Node) (σ : LexicalScope) :
    Table String Mention := ns.foldl (σ.learn all) σ.initial

/-- The names that deserve a remark: nothing has referred to them. -/
def Mention.remarks (t : Table String Mention) : List (String × Token) :=
  t.entries.filterMap fun (x, m) =>
    m.bind fun (token, used) => if used then none else some (x, token)

section Tally

variable {all pre post ns : List Node} {n : Node} {σ : LexicalScope}

theorem Node.mem_scopes_of_scope? (h : n.scope? = some σ) : σ ∈ n.spot.scopes :=
  List.mem_of_mem_head? h

theorem Spot.mem_scopes_of_resolve {s : Spot} {x : String} (h : s.resolve all x = some σ) :
    σ ∈ s.scopes := List.mem_of_find?_eq_some h

/-- A declaration looks nothing up. -/
theorem Node.lookup?_eq_none {name : Token} (h : n.kind.declared? = some name) :
    n.lookup? = none := by
  obtain ⟨s, kind⟩ := n
  cases kind <;> first | rfl | cases h

namespace LexicalScope

theorem tally_concat (all ns : List Node) (n : Node) (σ : LexicalScope) :
    σ.tally all (ns ++ [n]) = σ.learn all (σ.tally all ns) n := by
  rw [tally, List.foldl_append]
  rfl

/-- A scope learns nothing from nodes outside of it. -/
theorem learn_of_not_mem (h : σ ∉ n.spot.scopes) (t : Table String Mention) :
    σ.learn all t n = t := by
  unfold learn
  split
  · exact if_neg fun hscope => h (Node.mem_scopes_of_scope? hscope)
  · exact if_neg fun hresolve => h (Spot.mem_scopes_of_resolve hresolve)
  · rfl

theorem tally_append_of_not_mem (h : ∀ n ∈ ns, σ ∉ n.spot.scopes) :
    σ.tally all (pre ++ ns) = σ.tally all pre := by
  rw [tally, List.foldl_append, ← tally]
  generalize σ.tally all pre = t
  induction ns generalizing t with
  | nil => rfl
  | cons n ns ih =>
    rw [List.forall_mem_cons] at h
    rw [List.foldl_cons, learn_of_not_mem h.1, ih h.2]

theorem tally_of_not_mem (h : ∀ n ∈ ns, σ ∉ n.spot.scopes) : σ.tally all ns = σ.initial := by
  rw [← List.nil_append ns, tally_append_of_not_mem h]
  rfl

/-! ### The names that a scope knows -/

theorem contains_learn (t : Table String Mention) (x : String) :
    (σ.learn all t n).contains x = (t.contains x || n.declares σ x) := by
  unfold learn Node.declares
  split
  · next name hname =>
    rw [hname]
    split
    · next hscope =>
      rw [Table.contains_insert, Bool.or_comm, hscope]
      simp [beq_eq_decide]
    · next hscope => simp [hscope]
  · next hnone _ =>
    rw [hnone]
    split <;> simp
  · next hnone _ => simp [hnone]

theorem contains_initial (x : String) :
    σ.initial.contains x = (σ.kind == .receiver && x == "this") := by
  unfold initial
  split
  · next h =>
    rw [Table.contains_insert, h]
    simp [Table.contains, beq_eq_decide, eq_comm]
  · next h => simp [h, Table.contains]

theorem contains_tally (ns : List Node) (x : String) :
    (σ.tally all ns).contains x
      = ((σ.kind == .receiver && x == "this") || ns.any (Node.declares · σ x)) := by
  induction ns using List.reverseRecOn with
  | nil => rw [List.any_nil, Bool.or_false]; exact contains_initial x
  | append_singleton ns n ih =>
    rw [tally_concat, contains_learn, ih, List.any_append, List.any_cons, List.any_nil,
      Bool.or_false, Bool.or_assoc]

end LexicalScope

theorem Node.declaresAround_of_declares {d : Node} {x : String} (h : d.declares σ x)
    (hσ : σ ∈ n.spot.scopes) : d.DeclaresAround n := by
  simp only [Node.declares, Bool.and_eq_true, beq_iff_eq] at h
  exact ⟨Option.isSome_of_any h.2, σ, h.1, hσ⟩

/-- A declaration is listed in front of a node in its scope if and only if it comes before the
node in the text. -/
theorem Node.any_declares_eq (hall : all.Pairwise Node.InOrder) (hsplit : all = pre ++ n :: post)
    (hσ : σ ∈ n.spot.scopes) (x : String) :
    pre.any (Node.declares · σ x)
      = all.any fun d => d.declares σ x && decide (d.spot.path < n.spot.path) := by
  subst hsplit
  rw [List.pairwise_append, List.pairwise_cons] at hall
  obtain ⟨-, ⟨hafter, -⟩, hbefore⟩ := hall
  rw [Bool.eq_iff_iff, List.any_eq_true, List.any_eq_true]
  constructor
  · rintro ⟨d, hd, hdecl⟩
    have hlt := hbefore d hd n List.mem_cons_self (.inl (declaresAround_of_declares hdecl hσ))
    exact ⟨d, List.mem_append_left _ hd, by rw [hdecl, decide_eq_true hlt]; rfl⟩
  · rintro ⟨d, hd, h⟩
    rw [Bool.and_eq_true, decide_eq_true_iff] at h
    obtain ⟨hdecl, hlt⟩ := h
    rcases List.mem_append.mp hd with hd | hd
    · exact ⟨d, hd, hdecl⟩
    · rcases List.mem_cons.mp hd with rfl | hd
      · exact absurd hlt (List.lt_irrefl _)
      · have hgt := hafter d hd (.inr (declaresAround_of_declares hdecl hσ))
        exact absurd hlt (List.lt_asymm hgt)

/-- **The names that a scope knows when a node is listed** are those that it declares before the
node. -/
theorem LexicalScope.contains_tally_eq_holds (hall : all.Pairwise Node.InOrder)
    (hsplit : all = pre ++ n :: post) (hσ : σ ∈ n.spot.scopes) (x : String) :
    (σ.tally all pre).contains x = σ.holds all n.spot.path x := by
  rw [contains_tally, Node.any_declares_eq hall hsplit hσ]
  rfl

/-! ### The names that a scope finds unused -/

/-- No name is declared twice in a scope. -/
def NoneRedeclared (all : List Node) : Prop := ∀ n ∈ all, n.redeclared all = none

namespace LexicalScope

theorem nodup_keys_tally (all ns : List Node) (σ : LexicalScope) :
    (σ.tally all ns).keys.Nodup := by
  induction ns using List.reverseRecOn with
  | nil =>
    show σ.initial.keys.Nodup
    unfold initial
    split
    · exact List.nodup_singleton _
    · exact List.nodup_nil
  | append_singleton ns n ih =>
    rw [tally_concat, learn]
    split
    · split
      · exact Table.nodup_keys_insert ih _ _
      · exact ih
    · split
      · exact Table.nodup_keys_modify ih _ _
      · exact ih
    · exact ih

/-- What a scope knows about the name that a node declares, if some of the nodes `ns` may have
referred to it. -/
def account? (all ns : List Node) (σ : LexicalScope) (n : Node) : Option (String × Mention) :=
  if n.scope? = some σ then
    n.kind.declared?.map fun name =>
      (name.lexeme, n.kind.watched?.map (·, ns.any (Node.refersTo all σ name.lexeme)))
  else
    none

/-- What a scope knows about a name after a node, if the node declares nothing. -/
def heed (all : List Node) (σ : LexicalScope) (n : Node) (e : String × Mention) :
    String × Mention :=
  if Node.refersTo all σ e.1 n then (e.1, Mention.use e.2) else e

/-- A declaration refers to nothing. -/
theorem heed_of_declared {name : Token} (h : n.kind.declared? = some name) (e : String × Mention) :
    σ.heed all n e = e := by
  rw [heed, Node.refersTo, Node.lookup?_eq_none h]
  rfl

/-- Nothing changes what is known at first. -/
theorem heed_initial : σ.initial.entries.map (σ.heed all n) = σ.initial.entries := by
  unfold initial
  split
  · refine congrArg (· :: []) ?_
    exact ite_self _
  · rfl

/-- What a scope learns from a node that declares nothing. -/
theorem entries_learn {t : Table String Mention} (hkeys : t.keys.Nodup)
    (hdeclared : n.kind.declared? = none) :
    (σ.learn all t n).entries = t.entries.map (σ.heed all n) := by
  have hstay : (∀ x, Node.refersTo all σ x n = false) →
      t.entries = t.entries.map (σ.heed all n) := by
    intro hrefers
    refine (List.map_id' _).symm.trans (List.map_congr_left fun e _ => ?_)
    rw [heed, hrefers]
    rfl
  unfold learn
  cases hlookup : n.lookup? with
  | none =>
    simp only [hdeclared]
    exact hstay fun x => by rw [Node.refersTo, hlookup]; rfl
  | some name =>
    simp only [hdeclared]
    by_cases hresolve : n.spot.resolve all name.lexeme = some σ
    · rw [if_pos hresolve, Table.entries_modify hkeys]
      refine List.map_congr_left fun e _ => ?_
      have hrefers : Node.refersTo all σ e.1 n = decide (e.1 = name.lexeme) := by
        by_cases he : e.1 = name.lexeme
        · simp [Node.refersTo, hlookup, he, hresolve]
        · simp [Node.refersTo, hlookup, he, Ne.symm he]
      simp only [heed, hrefers, decide_eq_true_eq]
    · rw [if_neg hresolve]
      refine hstay fun x => ?_
      by_cases hx : name.lexeme = x
      · simp [Node.refersTo, hlookup, ← hx, hresolve]
      · simp [Node.refersTo, hlookup, hx]

/-- A reference to a name changes what is known about it. -/
theorem account?_concat (ns : List Node) (m : Node) :
    σ.account? all (ns ++ [n]) m = (σ.account? all ns m).map (σ.heed all n) := by
  unfold account? heed
  split
  · rw [Option.map_map]
    refine congrFun (congrArg Option.map (funext fun name => ?_)) _
    rw [Function.comp_apply, List.any_append, List.any_cons, List.any_nil, Bool.or_false]
    cases h : Node.refersTo all σ name.lexeme n with
    | false => simp
    | true => simp [Mention.use, Function.comp_def]
  · rfl

/-- A name that is declared for the first time is new to the scope. -/
theorem contains_tally_of_declares (hall : all.Pairwise Node.InOrder) (hnone : NoneRedeclared all)
    (hsplit : all = pre ++ n :: post) {name : Token} (hname : n.kind.declared? = some name)
    (hscope : n.scope? = some σ) : (σ.tally all pre).contains name.lexeme = false := by
  have h := hnone n (by rw [hsplit]; exact List.mem_append_right _ List.mem_cons_self)
  rw [Node.redeclared, hname, hscope] at h
  rw [contains_tally_eq_holds hall hsplit (Node.mem_scopes_of_scope? hscope)]
  simpa using h

/-- Nothing has referred to a name that is declared for the first time. -/
theorem not_refersTo_of_declares (hall : all.Pairwise Node.InOrder) (hnone : NoneRedeclared all)
    (hsplit : all = pre ++ n :: post) {name : Token} (hname : n.kind.declared? = some name)
    (hscope : n.scope? = some σ) : pre.any (Node.refersTo all σ name.lexeme) = false := by
  have hfree := contains_tally_of_declares hall hnone hsplit hname hscope
  rw [contains_tally_eq_holds hall hsplit (Node.mem_scopes_of_scope? hscope)] at hfree
  rw [List.any_eq_false]
  intro m hm hrefers
  -- the scope declares the name before `m`, and `m` comes before `n`, so the scope would declare
  -- the name before `n`
  obtain ⟨t, -, ht⟩ := (Option.any_eq_true _ _).mp hrefers
  rw [Bool.and_eq_true, beq_iff_eq, beq_iff_eq] at ht
  have hholds := List.find?_some ht.2
  have hlt : m.spot.path < n.spot.path := by
    subst hsplit
    rw [List.pairwise_append] at hall
    refine hall.2.2 m hm n List.mem_cons_self (.inr ⟨by rw [hname]; rfl, σ, hscope, ?_⟩)
    exact Spot.mem_scopes_of_resolve ht.2
  refine Bool.false_ne_true (hfree.symm.trans ?_)
  rw [holds, Bool.or_eq_true] at hholds ⊢
  refine hholds.imp_right fun h => ?_
  obtain ⟨d, hd, hdecl⟩ := List.any_eq_true.mp h
  rw [Bool.and_eq_true, decide_eq_true_iff] at hdecl
  refine List.any_eq_true.mpr ⟨d, hd, ?_⟩
  rw [Bool.and_eq_true, decide_eq_true_iff]
  exact ⟨hdecl.1, List.lt_trans hdecl.2 hlt⟩

/-- What a scope knows, if no name is declared twice: the names in the order of their
declarations, and which of them have been referred to. -/
theorem entries_tally (hall : all.Pairwise Node.InOrder) (hnone : NoneRedeclared all)
    (hsplit : all = pre ++ post) :
    (σ.tally all pre).entries = σ.initial.entries ++ pre.filterMap (σ.account? all pre) := by
  -- from the right: the last node declares a new name, or refers to one, or does neither
  induction pre using List.reverseRecOn generalizing post with
  | nil => rw [List.filterMap_nil, List.append_nil]; rfl
  | append_singleton pre n ih =>
    have hsplit' : all = pre ++ n :: post := by rw [hsplit, List.append_assoc]; rfl
    have hbefore : σ.initial.entries ++ pre.filterMap (σ.account? all (pre ++ [n]))
        = (σ.tally all pre).entries.map (σ.heed all n) := by
      rw [ih hsplit', List.map_append, heed_initial, List.map_filterMap]
      exact congrArg _ (List.filterMap_congr fun m _ => account?_concat pre m)
    rw [tally_concat, List.filterMap_append, ← List.append_assoc, hbefore]
    cases hdeclared : n.kind.declared? with
    | none =>
      rw [entries_learn (nodup_keys_tally all pre σ) hdeclared]
      simp [account?, hdeclared]
    | some name =>
      rw [List.map_congr_left fun e _ => heed_of_declared hdeclared e, List.map_id', learn]
      simp only [hdeclared]
      by_cases hscope : n.scope? = some σ
      · have hnew := contains_tally_of_declares hall hnone hsplit' hdeclared hscope
        have hunused := not_refersTo_of_declares hall hnone hsplit' hdeclared hscope
        have hself : Node.refersTo all σ name.lexeme n = false := by
          rw [Node.refersTo, Node.lookup?_eq_none hdeclared]
          rfl
        rw [if_pos hscope, Table.entries_insert_of_not_contains hnew]
        simp [account?, hscope, hdeclared, hunused, hself]
      · rw [if_neg hscope]
        simp [account?, hscope]

/-- **The names that a scope finds unused** when all nodes in the scope have been listed are those
of its declarations to which no node of the program refers. -/
theorem remarks_tally (hall : all.Pairwise Node.InOrder) (hnone : NoneRedeclared all)
    (hsplit : all = pre ++ post) (hpost : ∀ n ∈ post, σ ∉ n.spot.scopes) :
    Mention.remarks (σ.tally all pre)
      = pre.filterMap fun n => if n.scope? = some σ then n.unused all else none := by
  have hinitial : Mention.remarks σ.initial = [] := by
    unfold initial
    split <;> rfl
  have hany : ∀ x, all.any (Node.refersTo all σ x) = pre.any (Node.refersTo all σ x) := by
    intro x
    have hlater : post.any (Node.refersTo all σ x) = false := by
      rw [List.any_eq_false]
      intro m hm hrefers
      obtain ⟨t, -, ht⟩ := (Option.any_eq_true _ _).mp hrefers
      rw [Bool.and_eq_true, beq_iff_eq, beq_iff_eq] at ht
      exact hpost m hm (Spot.mem_scopes_of_resolve ht.2)
    conv => lhs; arg 1; rw [hsplit]
    rw [List.any_append, hlater, Bool.or_false]
  rw [Mention.remarks] at hinitial
  rw [Mention.remarks, entries_tally hall hnone hsplit, List.filterMap_append, hinitial,
    List.nil_append, List.filterMap_filterMap]
  refine List.filterMap_congr fun n _ => ?_
  unfold account?
  by_cases hscope : n.scope? = some σ
  · rw [if_pos hscope, if_pos hscope, Node.unused, hscope]
    obtain ⟨s, kind⟩ := n
    cases kind <;> simp [NodeKind.declared?, NodeKind.watched?, hany]
  · rw [if_neg hscope, if_neg hscope]
    rfl

end LexicalScope

end Tally

end LoxLang
