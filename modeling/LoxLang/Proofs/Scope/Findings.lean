import LoxLang.Proofs.Scope.Lexical
import LoxLang.Proofs.Scope.Receiver

/-!
# What the analysis of scopes finds

The walk over a piece of program lists its nodes one after the other.  When it comes to a node,
the scopes that are open know what the lexical rules say that they have learned from the nodes
before; hence it finds names where the rules say they belong, and it reports what the rules
report.  The scopes that a piece opens are closed again at its end, and the remarks made then are
on those names of the piece that are declared in such scopes and that nothing refers to.

## Main definitions

* `Analysis.tallies` — what the open scopes know.
* `Analysis.found`, `Analysis.faults`, `Analysis.remarks` — what the walk has recorded.
* `Analysis.Stands` — the open scopes know what they have learned from some nodes.
* `Told` — the walk over a piece records what the rules say about its nodes.

## Main results

* `Told.trans` — pieces one after the other.
* `Told.declare`, `Told.declareClass`, `Told.read`, `Told.assign`, `Told.this`,
  `Told.faultIf` — single nodes.
* `Told.closeScope` — a piece in a scope of its own.
-/

namespace LoxLang

/-! ### What the walk has recorded -/

/-- What is remembered about a local name, as far as remarks are concerned. -/
def Local.mention (l : Local) : Mention := if l.watched then some (l.token, l.used) else none

/-- A reference to a name, after which its declaration may be complete. -/
theorem Local.mention_used (l : Local) (defined : Bool) :
    Local.mention { l with used := true, defined } = Mention.use l.mention := by
  rw [Local.mention, Local.mention, Mention.use]
  cases l.watched <;> rfl

/-- The faults that concern the place of a node. -/
def ScopeCause.isMisplacement : ScopeCause → Bool
  | .redeclared | .ownInitializer => false
  | _ => true

/-- The faults with certain causes. -/
def faultsIn (p : ScopeCause → Bool) (fs : List Finding) : List ScopeFault :=
  fs.filterMap fun
    | .fault f => if p f.cause then some f else none
    | .unused _ _ => none

/-- The remarks on unused names. -/
def remarksIn (fs : List Finding) : List (String × Token) :=
  fs.filterMap fun
    | .fault _ => none
    | .unused name token => some (name, token)

/-- Something refers to a name that belongs to the first of some scopes that knows it. -/
def Mention.useIn (x : String) : List (Table String Mention) → List (Table String Mention)
  | [] => []
  | t :: ts => if t.contains x then t.modify x Mention.use :: ts else t :: useIn x ts

namespace Analysis

/-- What the scopes that are open know, innermost first. -/
def tallies (a : Analysis) : List (Table String Mention) :=
  a.scopes.map fun s => s.names.map Local.mention

/-- The names that were looked up, with their distances. -/
def found (a : Analysis) : List (Token × Option Nat) :=
  a.visits.toList.map fun v => (v.name, v.distance)

/-- The faults with certain causes. -/
def faults (p : ScopeCause → Bool) (a : Analysis) : List ScopeFault :=
  faultsIn p a.findings.toList

/-- The remarks on unused names. -/
def remarks (a : Analysis) : List (String × Token) := remarksIn a.findings.toList

end Analysis

@[simp] theorem faultsIn_append (p : ScopeCause → Bool) (fs gs : List Finding) :
    faultsIn p (fs ++ gs) = faultsIn p fs ++ faultsIn p gs := List.filterMap_append

@[simp] theorem remarksIn_append (fs gs : List Finding) :
    remarksIn (fs ++ gs) = remarksIn fs ++ remarksIn gs := List.filterMap_append

/-- The remarks on a scope are no faults, and they are on the names that it knows. -/
theorem faultsIn_unusedIn (p : ScopeCause → Bool) (names : Table String Local) :
    faultsIn p (Analysis.unusedIn names) = [] := by
  rw [faultsIn, Analysis.unusedIn, List.filterMap_filterMap, List.filterMap_eq_nil_iff]
  rintro ⟨x, l⟩ -
  cases h : (l.watched && !l.used) <;> simp [h]

theorem remarksIn_unusedIn (names : Table String Local) :
    remarksIn (Analysis.unusedIn names) = Mention.remarks (names.map Local.mention) := by
  rw [remarksIn, Analysis.unusedIn, List.filterMap_filterMap, Mention.remarks, Table.map,
    List.filterMap_map]
  refine List.filterMap_congr ?_
  rintro ⟨x, token, defined, used, watched⟩ -
  cases used <;> cases watched <;> rfl

/-! ### The steps of the walk -/

namespace Analysis

variable {a : Analysis}

theorem findings_faultIf (a : Analysis) (condition : Bool) (cause : ScopeCause) (token : Token) :
    (a.faultIf condition cause token).findings.toList
      = a.findings.toList ++ if condition then [.fault ⟨cause, token⟩] else [] := by
  cases condition with
  | false => exact (List.append_nil _).symm
  | true => exact Array.toList_push

theorem findings_update (a : Analysis) (name : Token) (f : Local → Local) :
    (a.update name f).findings = a.findings := by
  unfold update
  split
  · rfl
  · split <;> rfl

theorem findings_declare (a : Analysis) (name : Token) :
    (a.declare name).findings.toList
      = a.findings.toList
        ++ if a.tallies.head?.any (·.contains name.lexeme) then [.fault ⟨.redeclared, name⟩]
          else [] := by
  unfold declare tallies
  split
  · next h => simp [h]
  · next s ss h =>
    rw [h]
    simpa using findings_faultIf a (s.names.contains name.lexeme) .redeclared name

theorem findings_refer (a : Analysis) (name : Token) (f : Local → Local) :
    (a.refer name f).findings = a.findings := by
  unfold refer
  dsimp only
  split <;> rfl

theorem tallies_faultIf (a : Analysis) (condition : Bool) (cause : ScopeCause) (token : Token) :
    (a.faultIf condition cause token).tallies = a.tallies := by
  unfold faultIf
  split <;> rfl

theorem tallies_declare (a : Analysis) (name : Token) :
    (a.declare name).tallies
      = a.tallies.modifyHead (·.insert name.lexeme (some (name, false))) := by
  unfold declare tallies
  split
  · next h => simp [h]
  · next s ss h =>
    rw [h]
    simp [Local.mention]

/-- Completing a declaration changes nothing that matters for remarks. -/
theorem tallies_define (a : Analysis) (name : Token) : (a.define name).tallies = a.tallies := by
  unfold define update tallies
  split
  · rfl
  · next s ss h =>
    split
    · rw [h]
      have hmodify : (s.names.modify name.lexeme fun l => { l with defined := true }).map
          Local.mention = s.names.map Local.mention := by
        unfold Table.modify
        split
        · next l hl =>
          have hsame : Local.mention { l with defined := true } = l.mention := rfl
          rw [Table.map_insert, hsame]
          exact Table.insert_eq_self _ (by rw [Table.find?_map, hl]; rfl)
        · rfl
      simp [hmodify]
    · rfl

/-- Parameters are not remarked upon. -/
theorem tallies_declareParam (a : Analysis) (name : Token) :
    (a.declareParam name).tallies = a.tallies.modifyHead (·.insert name.lexeme none) := by
  unfold declareParam declare
  split
  · next h => simp [update, tallies, h]
  · next s ss h =>
    have hcontains :
        (s.names.insert name.lexeme { token := name }).contains name.lexeme = true := by
      simp [Table.contains_insert]
    simp [update, tallies, h, hcontains, Table.modify_insert_self, Local.mention]

theorem tallies_of_touch {x : String} {f : Local → Local}
    (hf : ∀ l, (f l).mention = Mention.use l.mention) (ss : List Scope) :
    ((touch x f ss).elim ss Prod.snd).map (fun s : Scope => s.names.map Local.mention)
      = Mention.useIn x (ss.map fun s => s.names.map Local.mention) := by
  induction ss with
  | nil => rfl
  | cons s ss ih =>
    rw [touch, List.map_cons, Mention.useIn, Table.contains_map]
    cases hfind : s.names.find? x with
    | some l =>
      have hmodify : (s.names.insert x (f l)).map Local.mention
          = (s.names.map Local.mention).modify x Mention.use := by
        rw [Table.modify, Table.find?_map, hfind, Option.map_some, Table.map_insert, hf]
      simp [Table.contains, hfind, hmodify]
    | none =>
      simp only [Table.contains, hfind, Option.isSome_none, Bool.false_eq_true, if_false]
      cases htouch : touch x f ss with
      | none => simpa [htouch] using ih
      | some r => simpa [htouch] using ih

theorem tallies_refer {name : Token} {f : Local → Local}
    (hf : ∀ l, (f l).mention = Mention.use l.mention) :
    (a.refer name f).tallies = Mention.useIn name.lexeme a.tallies := by
  have h := tallies_of_touch (x := name.lexeme) hf a.scopes
  unfold refer tallies
  rw [← h]
  dsimp only [visit]
  cases touch name.lexeme f a.scopes <;> rfl

theorem found_refer (a : Analysis) (name : Token) (f : Local → Local) :
    (a.refer name f).found
      = a.found ++ [(name, a.tallies.findIdx? (·.contains name.lexeme))] := by
  have hvisits : (a.refer name f).visits.toList = a.visits.toList ++ [⟨name, a.scopes⟩] := by
    unfold refer
    dsimp only
    split <;> exact Array.toList_push
  rw [found, hvisits, List.map_append, tallies, List.findIdx?_map]
  have hcontains : (fun t : Table String Mention => t.contains name.lexeme)
      ∘ (fun s : Scope => s.names.map Local.mention) = fun s => s.names.contains name.lexeme :=
    funext fun s => Table.contains_map _ _ _
  rw [hcontains]
  rfl

end Analysis

/-! ### The scopes know what they have learned -/

section Stands

variable {all pre ns : List Node} {s q : Spot} {kind : NodeKind} {name : Token} {a : Analysis}

/-- The scopes that are open are those around a spot, and they know what they have learned from
some nodes. -/
def Analysis.Stands (all pre : List Node) (s : Spot) (a : Analysis) : Prop :=
  a.tallies = s.scopes.map (LexicalScope.tally all pre)

/-- The first scope that knows a name is the first that holds it. -/
theorem Mention.useIn_map {x : String} {σs : List LexicalScope} {p : LexicalScope → Bool}
    {t : LexicalScope → Table String Mention} (hnodup : σs.Nodup)
    (hp : ∀ σ ∈ σs, (t σ).contains x = p σ) :
    Mention.useIn x (σs.map t)
      = σs.map fun σ => if σs.find? p = some σ then (t σ).modify x Mention.use else t σ := by
  induction σs with
  | nil => rfl
  | cons σ σs ih =>
    rw [List.nodup_cons] at hnodup
    rw [List.forall_mem_cons] at hp
    rw [List.map_cons, List.map_cons, Mention.useIn, hp.1, List.find?_cons]
    cases hσ : p σ with
    | true =>
      simp only [if_true, List.cons.injEq, true_and]
      refine List.map_congr_left fun σ' hσ' => (if_neg ?_).symm
      rintro heq
      exact hnodup.1 (Option.some.inj heq ▸ hσ')
    | false =>
      have hother : ¬ σs.find? p = some σ := fun hfind => hnodup.1 (List.mem_of_find?_eq_some hfind)
      simp only [Bool.false_eq_true, if_false, ih hnodup.2 hp.2, if_neg hother]

/-- The index of the first element with a property depends on the elements only. -/
theorem findIdx?_congr_mem {α : Type} {p p' : α → Bool} {l : List α}
    (h : ∀ x ∈ l, p x = p' x) : l.findIdx? p = l.findIdx? p' := by
  induction l with
  | nil => rfl
  | cons x l ih =>
    rw [List.forall_mem_cons] at h
    rw [List.findIdx?_cons, List.findIdx?_cons, h.1, ih h.2]

namespace Listed

/-- What a scope around a node knows when the node is listed. -/
theorem contains_tally (h : Listed all pre ⟨s, kind⟩) {σ : LexicalScope} (hσ : σ ∈ s.scopes)
    (x : String) : (σ.tally all pre).contains x = σ.holds all s.path x := by
  obtain ⟨post, hsplit⟩ := h.split
  exact LexicalScope.contains_tally_eq_holds h.inOrder hsplit hσ x

/-- The innermost scope learns a name. -/
theorem stands_declare (h : Listed all pre ⟨s, kind⟩) (hname : kind.declared? = some name)
    (hs : a.Stands all pre s) :
    a.tallies.modifyHead (·.insert name.lexeme (kind.watched?.map (·, false)))
      = s.scopes.map (LexicalScope.tally all (pre ++ [⟨s, kind⟩])) := by
  have hnodup : s.scopes.Nodup := h.nodup
  rw [hs]
  have hlearn : LexicalScope.tally all (pre ++ [⟨s, kind⟩]) = fun σ =>
      if s.scopes.head? = some σ
        then (σ.tally all pre).insert name.lexeme (kind.watched?.map (·, false))
        else σ.tally all pre := by
    funext σ
    rw [LexicalScope.tally_concat, LexicalScope.learn]
    simp only [hname]
    rfl
  rw [hlearn]
  cases hscopes : s.scopes with
  | nil => rfl
  | cons σ σs =>
    rw [hscopes, List.nodup_cons] at hnodup
    simp only [List.map_cons, List.modifyHead_cons, List.head?_cons, if_true, List.cons.injEq,
      true_and]
    refine List.map_congr_left fun σ' hσ' => (if_neg ?_).symm
    rintro heq
    exact hnodup.1 (Option.some.inj heq ▸ hσ')

/-- The scope to which a name belongs learns that something refers to it. -/
theorem stands_refer (h : Listed all pre ⟨s, kind⟩)
    (hname : (Node.mk s kind).lookup? = some name) (hs : a.Stands all pre s) :
    Mention.useIn name.lexeme a.tallies
      = s.scopes.map (LexicalScope.tally all (pre ++ [⟨s, kind⟩])) := by
  have hdeclared : kind.declared? = none := by
    cases hd : kind.declared? with
    | none => rfl
    | some t => rw [Node.lookup?_eq_none (n := ⟨s, kind⟩) hd] at hname; cases hname
  rw [hs, Mention.useIn_map h.nodup fun σ hσ => h.contains_tally hσ name.lexeme]
  refine List.map_congr_left fun σ _ => ?_
  rw [LexicalScope.tally_concat, LexicalScope.learn]
  simp only [hdeclared, hname]
  rfl

/-- The distance of a name that is looked up. -/
theorem findIdx?_tallies (h : Listed all pre ⟨s, kind⟩) (hs : a.Stands all pre s) (x : String) :
    a.tallies.findIdx? (·.contains x) = s.distance all x := by
  rw [hs, List.findIdx?_map]
  exact findIdx?_congr_mem fun σ hσ => h.contains_tally hσ x

/-- The fault of a name that is declared again. -/
theorem redeclared_eq (h : Listed all pre ⟨s, kind⟩) (hname : kind.declared? = some name)
    (hs : a.Stands all pre s) :
    (if a.tallies.head?.any (·.contains name.lexeme) then [⟨.redeclared, name⟩] else [])
      = ((Node.mk s kind).redeclared all).toList := by
  rw [hs, Node.redeclared]
  simp only [hname, Node.scope?]
  cases hscopes : s.scopes with
  | nil => rfl
  | cons σ σs =>
    have hmem : σ ∈ s.scopes := by rw [hscopes]; exact List.mem_cons_self
    have hσ := h.contains_tally hmem name.lexeme
    simp only [List.map_cons, List.head?_cons, Option.any_some, hσ]
    split <;> rfl

end Listed

/-- A scope that is opened knows what it knows at first. -/
theorem Analysis.Stands.openScope (h : a.Stands all pre s) (hsit : Situated all pre s ns)
    {site : Site} {names : Table String Local} {kind : ScopeKind}
    (hscopes : q.scopes = ⟨kind, s.path⟩ :: s.scopes)
    (hnames : names.map Local.mention = LexicalScope.initial ⟨kind, s.path⟩) :
    (a.openScope site names).Stands all pre q := by
  obtain ⟨post, -, hapart⟩ := hsit.split
  have hfresh : LexicalScope.tally all pre ⟨kind, s.path⟩ = LexicalScope.initial ⟨kind, s.path⟩ :=
    LexicalScope.tally_of_not_mem fun n hn hσ => hapart n (.inl hn) _ hσ List.prefix_rfl
  rw [Analysis.Stands, hscopes, List.map_cons, hfresh, ← hnames, ← h]
  rfl

/-- The names that a scope opened by a piece finds unused at the end of the piece. -/
theorem Situated.remarks_tally (h : Situated all pre s ns) (hnone : NoneRedeclared all)
    (kind : ScopeKind) :
    Mention.remarks (LexicalScope.tally all (pre ++ ns) ⟨kind, s.path⟩) = ns.filterMap fun n =>
      if n.scope? = some ⟨kind, s.path⟩ then n.unused all else none := by
  obtain ⟨post, hsplit, hapart⟩ := h.split
  -- no node outside of the piece is in the scope
  have hfresh : ∀ n, n ∈ pre ∨ n ∈ post → ⟨kind, s.path⟩ ∉ n.spot.scopes := fun n hn hσ =>
    hapart n hn _ hσ List.prefix_rfl
  have hpre : pre.filterMap (fun n =>
      if n.scope? = some ⟨kind, s.path⟩ then n.unused all else none) = [] :=
    List.filterMap_eq_nil_iff.mpr fun n hn =>
      if_neg fun hσ => hfresh n (.inl hn) (Node.mem_scopes_of_scope? hσ)
  rw [LexicalScope.remarks_tally h.inOrder hnone (hsplit.trans (List.append_assoc _ _ _).symm)
    fun n hn => hfresh n (.inr hn), List.filterMap_append, hpre, List.nil_append]

end Stands

/-! ### The walk tells what the rules say -/

/-- Where a spot is with respect to classes. -/
def Spot.classPlace (s : Spot) : ClassPlace :=
  match s.member? with
  | none => .outside
  | some .staticMethod => .staticMethod
  | some _ => .method

/-- A local name is declared to which nothing refers, in none of the scopes `σs`. -/
def Node.unusedBeyond (all : List Node) (σs : List LexicalScope) (n : Node) :
    Option (String × Token) :=
  match n.scope? with
  | some σ => if σ ∈ σs then none else n.unused all
  | none => none

/-- The walk over a piece at a spot, whose nodes `ns` are listed behind `pre`, leads from `a` to
`b` and records what the rules say about the nodes. -/
structure Told (all pre : List Node) (s : Spot) (ns : List Node) (a b : Analysis) : Prop where
  /-- The scopes around the piece have learned from its nodes. -/
  stands : b.Stands all (pre ++ ns) s
  /-- The names that were looked up. -/
  found_eq : b.found = a.found ++ ns.filterMap (Node.found all)
  /-- The faults that concern places. -/
  misplaced_eq : b.faults ScopeCause.isMisplacement
    = a.faults ScopeCause.isMisplacement ++ ns.filterMap Node.misplaced
  /-- The faults that concern names that are declared again. -/
  redeclared_eq : b.faults (· == .redeclared)
    = a.faults (· == .redeclared) ++ ns.filterMap (Node.redeclared all)
  /-- The remarks on the scopes that are opened in the piece. -/
  remarks_perm : NoneRedeclared all →
    b.remarks.Perm (a.remarks ++ ns.filterMap (Node.unusedBeyond all s.scopes))

namespace Told

variable {all pre ms ns : List Node} {s q : Spot} {kind : NodeKind} {name : Token}
  {a a' b b' c : Analysis} {i : Nat}

theorem refl (hs : a.Stands all pre s) : Told all pre s [] a a where
  stands := by rw [List.append_nil]; exact hs
  found_eq := (List.append_nil _).symm
  misplaced_eq := (List.append_nil _).symm
  redeclared_eq := (List.append_nil _).symm
  remarks_perm _ := by rw [List.filterMap_nil, List.append_nil]

/-- Pieces that are listed one behind the other. -/
theorem trans (h : Told all pre s ms a b) (h' : Told all (pre ++ ms) s ns b c) :
    Told all pre s (ms ++ ns) a c where
  stands := by rw [← List.append_assoc]; exact h'.stands
  found_eq := by rw [h'.found_eq, h.found_eq, List.filterMap_append, List.append_assoc]
  misplaced_eq := by
    rw [h'.misplaced_eq, h.misplaced_eq, List.filterMap_append, List.append_assoc]
  redeclared_eq := by
    rw [h'.redeclared_eq, h.redeclared_eq, List.filterMap_append, List.append_assoc]
  remarks_perm hnone := by
    rw [List.filterMap_append, ← List.append_assoc]
    exact (h'.remarks_perm hnone).trans ((h.remarks_perm hnone).append_right _)

/-- Parts of a piece are in the same scopes. -/
theorem part (h : Told all pre (s.part i) ns a b) : Told all pre s ns a b :=
  ⟨h.stands, h.found_eq, h.misplaced_eq, h.redeclared_eq, h.remarks_perm⟩

/-- The body of a loop is in the same scopes. -/
theorem loop (h : Told all pre s.loop ns a b) : Told all pre s ns a b :=
  ⟨h.stands, h.found_eq, h.misplaced_eq, h.redeclared_eq, h.remarks_perm⟩

/-- Whether the walk is in a function, a class or a loop is not recorded. -/
theorem of_eq (h : Told all pre s ns a b) (hvisits : a'.visits = a.visits)
    (hfindings : a'.findings = a.findings) (hscopes' : b'.scopes = b.scopes)
    (hvisits' : b'.visits = b.visits) (hfindings' : b'.findings = b.findings) :
    Told all pre s ns a' b' := by
  obtain ⟨hstands, hfound, hmisplaced, hredeclared, hremarks⟩ := h
  unfold Analysis.Stands Analysis.tallies at hstands
  unfold Analysis.found at hfound
  unfold Analysis.faults at hmisplaced hredeclared
  unfold Analysis.remarks at hremarks
  rw [← hvisits, ← hvisits'] at hfound
  rw [← hfindings, ← hfindings'] at hmisplaced hredeclared hremarks
  rw [← hscopes'] at hstands
  exact ⟨hstands, hfound, hmisplaced, hredeclared, hremarks⟩

/-- A single node, in terms of what is found there. -/
theorem single (fs : List Finding) (hstands : b.Stands all (pre ++ [⟨s, kind⟩]) s)
    (hfound : b.found = a.found ++ ((Node.mk s kind).found all).toList)
    (hfindings : b.findings.toList = a.findings.toList ++ fs)
    (hmisplaced : faultsIn ScopeCause.isMisplacement fs = (Node.mk s kind).misplaced.toList)
    (hredeclared : faultsIn (· == .redeclared) fs = ((Node.mk s kind).redeclared all).toList)
    (hremarks : remarksIn fs = []) : Told all pre s [⟨s, kind⟩] a b := by
  have hsingle : ∀ {α : Type} (f : Node → Option α), [Node.mk s kind].filterMap f
      = (f ⟨s, kind⟩).toList := fun f => by
    rw [List.filterMap_cons]
    cases f ⟨s, kind⟩ <;> rfl
  have hbeyond : (Node.mk s kind).unusedBeyond all s.scopes = none := by
    unfold Node.unusedBeyond
    split
    · next σ hσ => exact if_pos (Node.mem_scopes_of_scope? hσ)
    · rfl
  refine ⟨hstands, by rw [hfound, hsingle], ?_, ?_, fun _ => ?_⟩
  · rw [Analysis.faults, hfindings, faultsIn_append, hmisplaced, hsingle]
    rfl
  · rw [Analysis.faults, hfindings, faultsIn_append, hredeclared, hsingle]
    rfl
  · rw [Analysis.remarks, hfindings, remarksIn_append, hremarks, hsingle, hbeyond]
    exact .rfl

/-! ### The nodes -/

/-- Scopes learn nothing from a node that neither declares a name nor looks one up. -/
theorem stands_quiet (hdeclared : kind.declared? = none)
    (hlookup : (Node.mk s kind).lookup? = none) (hs : a.Stands all pre s) :
    a.Stands all (pre ++ [⟨s, kind⟩]) s := by
  rw [Analysis.Stands, hs]
  refine List.map_congr_left fun σ _ => ?_
  rw [LexicalScope.tally_concat, LexicalScope.learn]
  simp only [hdeclared, hlookup]

theorem define (name : Token) (hs : a.Stands all pre s) : Told all pre s [] a (a.define name) := by
  have hstands : (a.define name).Stands all pre s := by
    rw [Analysis.Stands, Analysis.tallies_define]
    exact hs
  have h := Told.refl hstands
  refine ⟨h.stands, ?_, ?_, ?_, fun _ => ?_⟩
  · rw [Analysis.found, Analysis.define, Analysis.visits_update, List.filterMap_nil,
      List.append_nil]
    rfl
  all_goals
    simp only [Analysis.faults, Analysis.remarks, Analysis.define, Analysis.findings_update,
      List.filterMap_nil, List.append_nil]
  exact .rfl

/-- A declaration. -/
theorem declare (h : Listed all pre ⟨s, kind⟩) (hs : a.Stands all pre s)
    (hdeclared : kind.declared? = some name) (hwatched : kind.watched? = some name)
    (hmisplaced : (Node.mk s kind).misplaced = none) :
    Told all pre s [⟨s, kind⟩] a (a.declare name) := by
  have hfault := h.redeclared_eq hdeclared hs
  refine Told.single _ ?_ ?_ (Analysis.findings_declare a name) ?_ ?_ ?_
  · have hstands := h.stands_declare hdeclared hs
    rw [hwatched] at hstands
    rw [Analysis.Stands, Analysis.tallies_declare]
    exact hstands
  · rw [Analysis.found, Analysis.visits_declare, Node.found, Node.lookup?_eq_none hdeclared]
    exact (List.append_nil _).symm
  · rw [hmisplaced]
    split <;> rfl
  · rw [← hfault]
    split <;> rfl
  · split <;> rfl

/-- A parameter. -/
theorem declareParam {t : Token} (h : Listed all pre ⟨s, .parameter t⟩)
    (hs : a.Stands all pre s) : Told all pre s [⟨s, .parameter t⟩] a (a.declareParam t) := by
  have hfault := h.redeclared_eq rfl hs
  refine Told.single (if a.tallies.head?.any (·.contains t.lexeme)
    then [.fault ⟨.redeclared, t⟩] else []) ?_ ?_ ?_ ?_ ?_ ?_
  · rw [Analysis.Stands, Analysis.tallies_declareParam]
    exact h.stands_declare rfl hs
  · rw [Analysis.found, Analysis.declareParam, Analysis.visits_update, Analysis.visits_declare]
    exact (List.append_nil _).symm
  · rw [Analysis.declareParam, Analysis.findings_update, Analysis.findings_declare]
  · split <;> rfl
  · rw [← hfault]
    split <;> rfl
  · split <;> rfl

/-- A name that is looked up, perhaps after a fault of another sort. -/
theorem refer {f : Local → Local} (condition : Bool) (t : Token)
    (h : Listed all pre ⟨s, kind⟩) (hs : a.Stands all pre s)
    (hf : ∀ l, (f l).mention = Mention.use l.mention)
    (hname : (Node.mk s kind).lookup? = some name)
    (hmisplaced : (Node.mk s kind).misplaced = none)
    (hredeclared : (Node.mk s kind).redeclared all = none) :
    Told all pre s [⟨s, kind⟩] a
      ((a.faultIf condition .ownInitializer t).refer name f) := by
  refine Told.single (if condition then [.fault ⟨.ownInitializer, t⟩] else [])
    ?_ ?_ ?_ ?_ ?_ ?_
  · rw [Analysis.Stands, Analysis.tallies_refer hf, Analysis.tallies_faultIf]
    exact h.stands_refer hname hs
  · rw [Analysis.found_refer, Analysis.tallies_faultIf, h.findIdx?_tallies hs, Node.found, hname,
      Analysis.found, Analysis.visits_faultIf]
    rfl
  · rw [Analysis.findings_refer, Analysis.findings_faultIf]
  · rw [hmisplaced]
    split <;> rfl
  · rw [hredeclared]
    split <;> rfl
  · split <;> rfl

theorem read (h : Listed all pre ⟨s, .variable name⟩) (hs : a.Stands all pre s) :
    Told all pre s [⟨s, .variable name⟩] a (a.read name) :=
  refer _ name h hs (fun l => l.mention_used l.defined) rfl rfl rfl

theorem assign (h : Listed all pre ⟨s, .assign name⟩) (hs : a.Stands all pre s) :
    Told all pre s [⟨s, .assign name⟩] a (a.assign name) :=
  refer false name h hs (fun l => l.mention_used true) rfl rfl rfl

/-- A keyword that makes sense at some places only. -/
theorem faultIf (condition : Bool) {cause : ScopeCause} (hs : a.Stands all pre s)
    (hdeclared : kind.declared? = none) (hlookup : (Node.mk s kind).lookup? = none)
    (hcause : cause.isMisplacement = true)
    (hmisplaced : (Node.mk s kind).misplaced = if condition then some ⟨cause, name⟩ else none) :
    Told all pre s [⟨s, kind⟩] a (a.faultIf condition cause name) := by
  have hother : cause ≠ .redeclared := by
    rintro rfl
    cases hcause
  refine Told.single _ ?_ ?_ (Analysis.findings_faultIf a condition cause name) ?_ ?_ ?_
  · rw [Analysis.Stands, Analysis.tallies_faultIf]
    exact stands_quiet hdeclared hlookup hs
  · rw [Analysis.found, Analysis.visits_faultIf, Node.found, hlookup]
    exact (List.append_nil _).symm
  · rw [hmisplaced]
    cases condition <;> simp [faultsIn, hcause]
  · rw [Node.redeclared]
    simp only [hdeclared]
    cases condition <;> simp [faultsIn, hother]
  · cases condition <;> rfl

/-- An occurrence of `this`. -/
theorem this (h : Listed all pre ⟨s, .this name⟩) (hs : a.Stands all pre s)
    (hplace : a.classPlace = s.classPlace) :
    Told all pre s [⟨s, .this name⟩] a (a.this name) := by
  unfold Analysis.this
  rw [hplace, Spot.classPlace]
  cases hmember : s.member? with
  | none =>
    exact faultIf true hs rfl (by simp [Node.lookup?, hmember]) rfl
      (by simp [Node.misplaced, hmember])
  | some c =>
    have hc : c.isMember = true := List.find?_some hmember
    cases c with
    | loop => cases hc
    | function => cases hc
    | method =>
      exact refer false name h hs (fun l => l.mention_used l.defined)
        (by simp [Node.lookup?, hmember]) (by simp [Node.misplaced, hmember]) rfl
    | staticMethod =>
      exact faultIf true hs rfl (by simp [Node.lookup?, hmember]) rfl
        (by simp [Node.misplaced, hmember])

/-- A class that inherits from another one, or from itself. -/
theorem declareSubclass {t : Token} (h : Listed all pre ⟨s, .classDecl name (some t)⟩)
    (hs : a.Stands all pre s) :
    Told all pre s [⟨s, .classDecl name (some t)⟩] a
      (((a.declare name).define name).faultIf (t.lexeme == name.lexeme) .inheritsItself t) := by
  have hfault := h.redeclared_eq rfl hs
  refine Told.single ((if a.tallies.head?.any (·.contains name.lexeme)
    then [.fault ⟨.redeclared, name⟩] else [])
      ++ if t.lexeme == name.lexeme then [.fault ⟨.inheritsItself, t⟩] else []) ?_ ?_ ?_ ?_ ?_ ?_
  · rw [Analysis.Stands, Analysis.tallies_faultIf, Analysis.tallies_define,
      Analysis.tallies_declare]
    exact h.stands_declare rfl hs
  · rw [Analysis.found, Analysis.visits_faultIf, Analysis.define, Analysis.visits_update,
      Analysis.visits_declare]
    exact (List.append_nil _).symm
  · rw [Analysis.findings_faultIf, Analysis.define, Analysis.findings_update,
      Analysis.findings_declare, List.append_assoc]
  · rw [faultsIn_append, Node.misplaced]
    by_cases heq : t.lexeme = name.lexeme
    · simp only [heq, beq_self_eq_true, if_true]
      split <;> rfl
    · simp only [heq, beq_eq_false_iff_ne.mpr heq, Bool.false_eq_true, if_false]
      split <;> rfl
  · rw [faultsIn_append, ← hfault]
    cases t.lexeme == name.lexeme <;> split <;> rfl
  · rw [remarksIn_append]
    cases t.lexeme == name.lexeme <;> split <;> rfl

/-- The declaration of a class, with its superclass. -/
theorem declareClass {superclass : Option Token}
    (h : Situated all pre s (⟨s, .classDecl name superclass⟩ :: ns)) (hs : a.Stands all pre s)
    (hsuper : Situated all (pre ++ [⟨s, .classDecl name superclass⟩]) (s.part 0)
      (superclass.toList.map fun t => ⟨s.part 0, .variable t⟩)) :
    Told all pre s (⟨s, .classDecl name superclass⟩
      :: superclass.toList.map fun t => ⟨s.part 0, .variable t⟩) a
      (a.declareClass name superclass) := by
  cases superclass with
  | none =>
    have hname := Told.declare h.head hs rfl rfl rfl
    exact hname.trans (.define name hname.stands)
  | some t =>
    have hname := Told.declareSubclass h.head hs
    exact hname.trans (Told.read hsuper.head hname.stands).part

/-- The parameters of a function. -/
theorem params (ts : List Token) (h : SituatedFrom all pre q i (paramNodes ts q i))
    (hs : a.Stands all pre q) :
    Told all pre q (paramNodes ts q i) a (ts.foldl Analysis.declareParam a) := by
  induction ts generalizing pre a i with
  | nil => exact .refl hs
  | cons t ts ih =>
    have hfirst : Arranged false (q.part i) [⟨q.part i, .parameter t⟩] :=
      .single fun h => absurd h Bool.false_ne_true
    have hsplit : SituatedFrom all pre q i
        ([⟨q.part i, .parameter t⟩] ++ paramNodes ts q (i + 1)) := h
    have ht := Told.declareParam (hsplit.first (paramsArranged ts q (i + 1))).head hs
    exact ht.part.trans (ih (hsplit.rest hfirst) ht.stands)

/-! ### Scopes that are closed -/

/-- Two kinds of values, taken from different elements. -/
theorem filterMap_append_perm {α β : Type} {f g h : α → Option β}
    (hcases : ∀ x, f x = none ∧ h x = g x ∨ g x = none ∧ h x = f x) (l : List α) :
    (l.filterMap f ++ l.filterMap g).Perm (l.filterMap h) := by
  induction l with
  | nil => exact .rfl
  | cons x l ih =>
    rcases hcases x with ⟨hf, hh⟩ | ⟨hg, hh⟩
    · cases hg : g x with
      | none =>
        rw [List.filterMap_cons_none hf, List.filterMap_cons_none hg,
          List.filterMap_cons_none (hh.trans hg)]
        exact ih
      | some y =>
        rw [List.filterMap_cons_none hf, List.filterMap_cons_some hg,
          List.filterMap_cons_some (hh.trans hg)]
        exact List.perm_middle.trans (ih.cons y)
    · cases hf : f x with
      | none =>
        rw [List.filterMap_cons_none hf, List.filterMap_cons_none hg,
          List.filterMap_cons_none (hh.trans hf)]
        exact ih
      | some y =>
        rw [List.filterMap_cons_some hf, List.filterMap_cons_none hg,
          List.filterMap_cons_some (hh.trans hf)]
        exact ih.cons y

/-- A name that is declared in none of some scopes is declared in one more scope or in none of
them all. -/
theorem unusedBeyond_cases (all : List Node) {σ : LexicalScope} {σs : List LexicalScope}
    (hσ : σ ∉ σs) (n : Node) :
    n.unusedBeyond all (σ :: σs) = none
        ∧ n.unusedBeyond all σs = (if n.scope? = some σ then n.unused all else none)
      ∨ (if n.scope? = some σ then n.unused all else none) = none
        ∧ n.unusedBeyond all σs = n.unusedBeyond all (σ :: σs) := by
  unfold Node.unusedBeyond
  cases n.scope? with
  | none => exact .inl ⟨rfl, rfl⟩
  | some τ =>
    by_cases hτ : τ = σ
    · subst hτ
      left
      simp [hσ]
    · right
      simp [hτ]

/-- A scope that is opened in a piece is closed at its end. -/
theorem closeScope (hsit : Situated all pre s ns) (hq : s.Opens q) (h : Told all pre q ns a b) :
    Told all pre s ns a b.closeScope := by
  obtain ⟨-, kind, hscopes⟩ := hq
  have hstands := h.stands
  rw [Analysis.Stands, hscopes, List.map_cons, Analysis.tallies] at hstands
  cases hb : b.scopes with
  | nil => rw [hb] at hstands; cases hstands
  | cons t ts =>
    rw [hb, List.map_cons, List.cons.injEq] at hstands
    have hclose : b.closeScope
        = { b with scopes := ts
                   findings := b.findings ++ (Analysis.unusedIn t.names).toArray } := by
      rw [Analysis.closeScope, hb]
    have hfindings : b.closeScope.findings.toList
        = b.findings.toList ++ Analysis.unusedIn t.names := by
      rw [hclose, Array.toList_append]
    refine ⟨?_, ?_, ?_, ?_, fun hnone => ?_⟩
    · rw [Analysis.Stands, hclose]
      exact hstands.2
    · rw [hclose]
      exact h.found_eq
    · rw [Analysis.faults, hfindings, faultsIn_append, faultsIn_unusedIn, List.append_nil]
      exact h.misplaced_eq
    · rw [Analysis.faults, hfindings, faultsIn_append, faultsIn_unusedIn, List.append_nil]
      exact h.redeclared_eq
    · have hout : (⟨kind, s.path⟩ : LexicalScope) ∉ s.scopes := fun hσ =>
        hsit.proper.outside _ hσ List.prefix_rfl
      have hperm := filterMap_append_perm (unusedBeyond_cases all hout) ns
      rw [Analysis.remarks, hfindings, remarksIn_append, remarksIn_unusedIn, hstands.1,
        hsit.remarks_tally hnone kind]
      refine ((h.remarks_perm hnone).append_right _).trans ?_
      rw [hscopes, List.append_assoc]
      exact hperm.append_left _

end Told

end LoxLang
