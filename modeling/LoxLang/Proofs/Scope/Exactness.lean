import LoxLang.Program.OfTokens
import LoxLang.Proofs.Scope.Findings
import LoxLang.Token.Lexer

/-!
# The analysis of scopes is exact

The analysis walks over a program and fills and empties scopes as it goes.  It says about each
node what the lexical rules say: it reports the keywords that are out of place and the names that
are declared again, it records the distances of names as they follow from the text, and it
remarks on local names if and only if nothing refers to them.

## Main definitions

* `Analysis.Placed` — the walk knows which loops, functions and classes are around a spot.
* `Distances.enterAll` — the distances after some names were looked up.

## Main results

* `Expr.told`, `Stmt.told` and their companions — the walk over a piece.
* `Program.told` — the walk over a program.
* `Program.faults_eq_misplaced` — keywords out of place are what is reported of them.
* `Program.distances_eq_lexical` — the distances are those of the lexical rules.
* `Program.declarations_exact` — names declared again are reported, unused ones remarked on.
-/

namespace LoxLang

/-! ### Loops, functions and classes -/

/-- The walk knows what is around a spot. -/
structure Analysis.Placed (s : Spot) (a : Analysis) : Prop where
  /-- The innermost member of a class. -/
  classPlace : a.classPlace = s.classPlace
  /-- Functions. -/
  inFunction : a.inFunction = s.inFunction
  /-- Loops in the innermost function. -/
  inLoop : (a.loopDepth == 0) = !s.inLoop

namespace Analysis.Placed

variable {a b : Analysis} {s : Spot} {occs : List Occurrence}

theorem part (h : a.Placed s) (i : Nat) : a.Placed (s.part i) :=
  ⟨h.classPlace, h.inFunction, h.inLoop⟩

theorem of_walked (h : a.Placed s) (hw : Walked a occs b) : b.Placed s := by
  obtain ⟨vs, hw⟩ := hw
  have hflags := hw.flags_eq
  simp only [flags, Prod.mk.injEq] at hflags
  obtain ⟨hfunction, hclass, hloops⟩ := hflags
  exact ⟨hclass.trans h.classPlace, hfunction.trans h.inFunction, by rw [hloops]; exact h.inLoop⟩

theorem inside (h : a.Placed s) (kind : ScopeKind) (site : Site) (names : Table String Local) :
    (a.openScope site names).Placed (s.inside kind) :=
  ⟨h.classPlace, h.inFunction, h.inLoop⟩

theorem enterLoop (h : a.Placed s) : a.enterLoop.Placed s.loop :=
  ⟨h.classPlace, h.inFunction, rfl⟩

/-- In a function there is no loop at first. -/
theorem enter {c : Enclosure} (hc : c.isBody = true)
    (hplace : a.classPlace = (s.enter c).classPlace) (site : Site) (params : List Token) :
    (a.enterFunction site params).Placed (s.enter c) := by
  refine of_walked ?_ (walked_declareParams params _)
  refine ⟨hplace, ?_, ?_⟩
  · show true = (c :: s.enclosures).any Enclosure.isBody
    rw [List.any_cons, hc]
    rfl
  · show true = !((c :: s.enclosures).takeWhile fun c => !c.isBody).contains .loop
    rw [List.takeWhile_cons, hc]
    rfl

end Analysis.Placed

/-! ### Pieces that consist of parts -/

namespace Told

variable {closed closed' : Bool} {all pre ms ns : List Node} {s q : Spot} {a b c : Analysis}
  {i : Nat}

/-- A part and those behind it. -/
theorem append (h : SituatedFrom all pre q i (ms ++ ns)) (hms : Arranged closed (q.part i) ms)
    (hns : ArrangedFrom closed' q (i + 1) ns)
    (hm : Situated all pre (q.part i) ms → Told all pre (q.part i) ms a b)
    (hn : SituatedFrom all (pre ++ ms) q (i + 1) ns → b.Stands all (pre ++ ms) q →
      Told all (pre ++ ms) q ns b c) : Told all pre q (ms ++ ns) a c := by
  have hfirst := hm (h.first hns)
  exact hfirst.part.trans (hn (h.rest hms) hfirst.stands)

/-- The body of a loop. -/
theorem enterLoop (h : Told all pre s.loop ns a.enterLoop b) : Told all pre s ns a b :=
  h.loop.of_eq rfl rfl rfl rfl rfl

theorem leaveLoop (h : Told all pre s ns a b) : Told all pre s ns a b.leaveLoop :=
  h.of_eq rfl rfl rfl rfl rfl

/-- A function, whose parameters and body are in a scope of their own. -/
theorem function {body : Enclosure} {site : Site} {ts : List Token}
    (h : Situated all pre s (paramNodes ts ((s.enter body).part 0) 0 ++ ns))
    (hs : a.Stands all pre s) (hns : Arranged closed ((s.enter body).part 1) ns)
    (hbody : ∀ pre', Situated all pre' ((s.enter body).part 1) ns →
      (a.enterFunction site ts).Stands all pre' ((s.enter body).part 1) →
      Told all pre' ((s.enter body).part 1) ns (a.enterFunction site ts) b) :
    Told all pre s (paramNodes ts ((s.enter body).part 0) 0 ++ ns) a (b.leaveFunction a) := by
  have hopened : ({ a with inFunction := true, loopDepth := 0 }.openScope site .empty).Stands all
      pre (s.enter body) := hs.openScope h rfl rfl
  have hinner : Told all pre (s.enter body) (paramNodes ts ((s.enter body).part 0) 0 ++ ns)
      ({ a with inFunction := true, loopDepth := 0 }.openScope site .empty) b :=
    append (h.opened (s.opens_enter body)) (paramsArranged ts _ 0).arranged (.of_part hns)
      (fun hparams => params ts hparams.parts hopened)
      (fun hrest hstands => (hbody _ hrest.last hstands).part)
  exact (closeScope h (s.opens_enter body) hinner).of_eq rfl rfl rfl rfl rfl

/-- The members of a class: the static methods, and the methods, which are in a scope of their
own. -/
theorem members {outer : Analysis} {name : Token} (h : SituatedFrom all pre s 1 (ms ++ ns))
    (hms : Arranged closed (s.part 1) ms) (hns : Arranged closed' (s.part 2) ns)
    (hs : a.Stands all pre s)
    (hstatics : Situated all pre (s.part 1) ms → a.enterStatics.Stands all pre (s.part 1) →
      Told all pre (s.part 1) ms a.enterStatics b)
    (hmethods : SituatedFrom all (pre ++ ms) ((s.part 2).inside .receiver) 0 ns →
      (b.enterMethods name).Stands all (pre ++ ms) ((s.part 2).inside .receiver) →
      Told all (pre ++ ms) ((s.part 2).inside .receiver) ns (b.enterMethods name) c) :
    Told all pre s (ms ++ ns) a (c.leaveClass outer) := by
  have hopens := (s.part 2).opens_inside .receiver
  have hfirst : Situated all pre (s.part 1) ms → Told all pre (s.part 1) ms a b := fun h₁ =>
    (hstatics h₁ hs).of_eq rfl rfl rfl rfl rfl
  refine append h hms (.of_part hns) hfirst fun h₂ hs' => ?_
  have hopened : (b.enterMethods name).Stands all (pre ++ ms) ((s.part 2).inside .receiver) :=
    Analysis.Stands.openScope (s := s.part 2) hs' h₂.last rfl rfl
  have hinner := hmethods (h₂.last.opened hopens) hopened
  exact (closeScope h₂.last hopens hinner).part.of_eq rfl rfl rfl rfl rfl

theorem strayReturn (name : Token) (hs : a.Stands all pre s)
    (hfunction : a.inFunction = s.inFunction) :
    Told all pre s [⟨s, .return name⟩] a (a.faultIf (!a.inFunction) .strayReturn name) := by
  refine faultIf _ hs rfl rfl rfl ?_
  rw [hfunction, Node.misplaced]
  cases s.inFunction <;> rfl

end Told

/-! ### The walk -/

section Walk

variable {all : List Node}

mutual

/-- The walk over an expression. -/
theorem Expr.told : ∀ (e : Expr) {pre : List Node} {s : Spot} {a : Analysis},
    Situated all pre s (e.nodes s) → a.Stands all pre s → a.classPlace = s.classPlace →
    Told all pre s (e.nodes s) a (analyzeExpr e a)
  | .literal _, _, _, _, _, hs, _ => .refl hs
  | .grouping e, _, _, _, h, hs, hc => (e.told h.parts.last hs hc).part
  | .unary _ e, _, _, _, h, hs, hc => (e.told h.parts.last hs hc).part
  | .binary l _ r, _, _, a, h, hs, hc => by
      have hc' := (Analysis.classPlace_eq_of_walked (walked_expr l a.at_place)).trans hc
      exact .append h.parts (l.arranged (h.proper.part 0)) (.of_part (r.arranged (h.proper.part 1)))
        (fun hl => l.told hl hs hc) (fun hr hs' => (r.told hr.last hs' hc').part)
  | .logical l _ r, _, _, a, h, hs, hc => by
      have hc' := (Analysis.classPlace_eq_of_walked (walked_expr l a.at_place)).trans hc
      exact .append h.parts (l.arranged (h.proper.part 0)) (.of_part (r.arranged (h.proper.part 1)))
        (fun hl => l.told hl hs hc) (fun hr hs' => (r.told hr.last hs' hc').part)
  | .conditional c t e, _, _, a, h, hs, hc => by
      have hc' := (Analysis.classPlace_eq_of_walked (walked_expr c a.at_place)).trans hc
      have hc'' := (Analysis.classPlace_eq_of_walked
        (walked_expr t (analyzeExpr c a).at_place)).trans hc'
      have he := ArrangedFrom.of_part (e.arranged (h.proper.part 2))
      exact .append h.parts (c.arranged (h.proper.part 0))
        (.append (t.arranged (h.proper.part 1)) he (Nat.lt_succ_self 1))
        (fun h₀ => c.told h₀ hs hc) fun hrest hs' =>
          .append hrest (t.arranged (h.proper.part 1)) he (fun h₁ => t.told h₁ hs' hc')
            (fun h₂ hs'' => (e.told h₂.last hs'' hc'').part)
  | .assign _ value, _, _, _, h, hs, hc => by
      have hvalue := value.told h.init.parts.last hs hc
      exact hvalue.part.trans (.assign h.last hvalue.stands)
  | .variable _, _, _, _, h, hs, _ => .read h.head hs
  | .call callee _ arguments, _, _, a, h, hs, hc => by
      have hc' := (Analysis.classPlace_eq_of_walked (walked_expr callee a.at_place)).trans hc
      exact .append h.parts (callee.arranged (h.proper.part 0))
        (.of_part (exprsArranged arguments (h.proper.part 1).part 0).arranged)
        (fun h₀ => callee.told h₀ hs hc)
        (fun h₁ hs' => (exprsTold arguments h₁.last.parts hs' hc').part)
  | .get object _, _, _, _, h, hs, hc => (object.told h.parts.last hs hc).part
  | .set object _ value, _, _, a, h, hs, hc => by
      -- the value is the second part, but it is visited first
      have hc' := (Analysis.classPlace_eq_of_walked (walked_expr value a.at_place)).trans hc
      have hvalue := value.told (h.parts.left (object.arranged (h.proper.part 0)) Nat.one_ne_zero
        (Nat.zero_le 1)) hs hc
      exact hvalue.part.trans (object.told (h.parts.right (value.arranged (h.proper.part 1))
        Nat.one_ne_zero (Nat.le_refl 0)) hvalue.stands hc').part
  | .this _, _, _, _, h, hs, hc => .this h.head hs hc
  | .lambda keyword params body, _, s, a, h, hs, hc => by
      have hproper := h.proper.opens (s.opens_enter .function)
      have hplaced := Analysis.Placed.enter (s := s) (c := .function) rfl hc
        (.function keyword.position) params
      exact .function h hs (stmtsArranged body (hproper 1).part 0).arranged
        fun _ hbody hs' => stmtsTold body hbody.parts hs' (hplaced.part 1)

/-- The walk over expressions. -/
theorem exprsTold : ∀ (es : List Expr) {pre : List Node} {q : Spot} {i : Nat} {a : Analysis},
    SituatedFrom all pre q i (exprsNodes es q i) → a.Stands all pre q →
    a.classPlace = q.classPlace → Told all pre q (exprsNodes es q i) a (analyzeExprs es a)
  | [], _, _, _, _, _, hs, _ => .refl hs
  | e :: es, _, _, i, a, h, hs, hc => by
      have hc' := (Analysis.classPlace_eq_of_walked (walked_expr e a.at_place)).trans hc
      exact .append h (e.arranged (h.proper i)) (exprsArranged es h.proper (i + 1))
        (fun he => e.told he hs hc) (fun hes hs' => exprsTold es hes hs' hc')

/-- The walk over a statement. -/
theorem Stmt.told : ∀ (t : Stmt) {pre : List Node} {s : Spot} {a : Analysis},
    Situated all pre s (t.nodes s) → a.Stands all pre s → a.Placed s →
    Told all pre s (t.nodes s) a (analyzeStmt t a)
  | .expression e, _, _, _, h, hs, hp => (e.told h.parts.last hs hp.classPlace).part
  | .print e, _, _, _, h, hs, hp => (e.told h.parts.last hs hp.classPlace).part
  | .var name none, _, _, _, h, hs, _ => by
      have hname := Told.declare h.head hs rfl rfl rfl
      exact hname.trans (.define name hname.stands)
  | .var name (some e), _, _, a, h, hs, hp => by
      have hc := (Analysis.classPlace_eq_of_walked (walked_declare a name)).trans hp.classPlace
      have hname := Told.declare h.head hs rfl rfl rfl
      have hinit := (e.told h.tail.parts.last hname.stands hc).part
      have htold := (hname.trans hinit).trans (.define name (hname.trans hinit).stands)
      rw [List.append_nil] at htold
      exact htold
  | .block position body, _, s, a, h, hs, hp => by
      have hopened : (a.openScope (.block position) .empty).Stands all _ (s.inside .block) :=
        hs.openScope h rfl rfl
      have hbody := stmtsTold body (h.opened (s.opens_inside .block)) hopened
        (hp.inside .block (.block position) .empty)
      exact (hbody.closeScope h (s.opens_inside .block)).of_eq rfl rfl rfl rfl rfl
  | .ifElse c t none, _, _, a, h, hs, hp => by
      have hp' := hp.of_walked (walked_expr c a.at_place)
      exact .append h.parts (c.arranged (h.proper.part 0)) (.of_part (t.arranged (h.proper.part 1)))
        (fun h₀ => c.told h₀ hs hp.classPlace)
        (fun h₁ hs' => (t.told h₁.last hs' (hp'.part 1)).part)
  | .ifElse c t (some e), _, _, a, h, hs, hp => by
      have hp' := hp.of_walked (walked_expr c a.at_place)
      have hp'' := hp'.of_walked (walked_stmt t (analyzeExpr c a).at_place)
      have he := ArrangedFrom.of_part (e.arranged (h.proper.part 2))
      exact .append h.parts (c.arranged (h.proper.part 0))
        (.append (t.arranged (h.proper.part 1)) he (Nat.lt_succ_self 1))
        (fun h₀ => c.told h₀ hs hp.classPlace) fun hrest hs' =>
          .append hrest (t.arranged (h.proper.part 1)) he (fun h₁ => t.told h₁ hs' (hp'.part 1))
            (fun h₂ hs'' => (e.told h₂.last hs'' (hp''.part 2)).part)
  | .while c body none, _, _, a, h, hs, hp => by
      have hp' := ((hp.of_walked (walked_expr c a.at_place)).part 1).enterLoop
      exact .append h.parts (c.arranged (h.proper.part 0))
        (.of_part (body.arranged (h.proper.part 1).loop).loop)
        (fun h₀ => c.told h₀ hs hp.classPlace)
        (fun h₁ hs' => (body.told (a := (analyzeExpr c a).enterLoop) h₁.last.loop hs'
          hp').enterLoop.part.leaveLoop)
  | .while c body (some i), _, _, a, h, hs, hp => by
      have hp' := ((hp.of_walked (walked_expr c a.at_place)).part 1).enterLoop
      have hp'' := hp'.of_walked (walked_stmt body (analyzeExpr c a).enterLoop.at_place)
      have hi := ArrangedFrom.of_part (i.arranged (h.proper.part 2)).weaken
      have hbody := (body.arranged (h.proper.part 1).loop).loop
      exact .append h.parts (c.arranged (h.proper.part 0)) (.append hbody hi (Nat.lt_succ_self 1))
        (fun h₀ => c.told h₀ hs hp.classPlace) fun hrest hs' =>
          .append hrest hbody hi
            (fun h₁ => (body.told (a := (analyzeExpr c a).enterLoop) h₁.loop hs' hp').enterLoop)
            (fun h₂ hs'' => (i.told h₂.last hs'' hp''.classPlace).part.leaveLoop)
  | .break _, _, s, _, _, hs, hp => by
      refine .faultIf _ hs rfl rfl rfl ?_
      rw [hp.inLoop, Node.misplaced]
      cases s.inLoop <;> rfl
  | .continue _, _, s, _, _, hs, hp => by
      refine .faultIf _ hs rfl rfl rfl ?_
      rw [hp.inLoop, Node.misplaced]
      cases s.inLoop <;> rfl
  | .function decl, _, s, a, h, hs, hp => by
      have hname := Told.declare h.head hs rfl rfl rfl
      have hdefine := hname.trans (.define decl.name hname.stands)
      have hc := (Analysis.classPlace_eq_of_walked ((walked_declare a decl.name).trans
        (walked_define (declares_declare a decl.name)))).trans hp.classPlace
      exact hdefine.trans (decl.told rfl h.tail hdefine.stands hc)
  | .return keyword none, _, _, _, _, hs, hp => .strayReturn _ hs hp.inFunction
  | .return keyword (some e), _, _, a, h, hs, hp => by
      have hfault := Told.strayReturn keyword hs hp.inFunction
      have hc := (Analysis.classPlace_eq_of_walked
        (walked_faultIf a (!a.inFunction) .strayReturn keyword)).trans hp.classPlace
      exact hfault.trans (e.told h.tail.parts.last hfault.stands hc).part
  | .classDecl name superclass methods statics, pre, s, a, h, hs, hp => by
      have hmethods := ((functionsArranged methods .method
        ((h.proper.part 2).opens ((s.part 2).opens_inside .receiver)) 0).opened
          ((s.part 2).opens_inside .receiver)).weaken
      have hstatics := (functionsArranged statics .staticMethod
        (h.proper.part 1).part 0).arranged.weaken
      have hmembers := ArrangedFrom.append hstatics (.of_part hmethods) (Nat.lt_succ_self 1)
      have hparts := h.tail.parts
      have hclass := Told.declareClass h hs (hparts.first hmembers)
      have hrest := hparts.rest (superclassArranged superclass (s.part 0))
      rw [List.append_assoc] at hrest
      exact hclass.trans (.members hrest hstatics hmethods hclass.stands
        (fun h₁ hs' => functionsTold statics rfl h₁.parts hs' rfl)
        (fun h₂ hs' => functionsTold methods rfl h₂ hs' rfl))

/-- The walk over statements. -/
theorem stmtsTold : ∀ (ts : List Stmt) {pre : List Node} {q : Spot} {i : Nat} {a : Analysis},
    SituatedFrom all pre q i (stmtsNodes ts q i) → a.Stands all pre q → a.Placed q →
    Told all pre q (stmtsNodes ts q i) a (analyzeStmts ts a)
  | [], _, _, _, _, _, hs, _ => .refl hs
  | t :: ts, _, _, i, a, h, hs, hp => by
      have hp' := hp.of_walked (walked_stmt t a.at_place)
      exact .append h (t.arranged (h.proper i)) (stmtsArranged ts h.proper (i + 1))
        (fun ht => t.told ht hs (hp.part i)) (fun hts hs' => stmtsTold ts hts hs' hp')

/-- The walk over a function. -/
theorem FunctionDecl.told : ∀ (f : FunctionDecl) {c : Enclosure} {pre : List Node} {s : Spot}
    {a : Analysis}, c.isBody = true → Situated all pre s (f.nodes c s) → a.Stands all pre s →
    a.classPlace = (s.enter c).classPlace → Told all pre s (f.nodes c s) a (analyzeFunction f a)
  | .mk name params body, c, _, s, a, hc, h, hs, hplace => by
      have hproper := h.proper.opens (s.opens_enter c)
      have hplaced := Analysis.Placed.enter hc hplace (.function name.position) params
      exact .function h hs (stmtsArranged body (hproper 1).part 0).arranged
        fun _ hbody hs' => stmtsTold body hbody.parts hs' (hplaced.part 1)

/-- The walk over functions. -/
theorem functionsTold : ∀ (fs : List FunctionDecl) {c : Enclosure} {pre : List Node} {q : Spot}
    {i : Nat} {a : Analysis}, c.isBody = true → SituatedFrom all pre q i (functionsNodes fs c q i) →
    a.Stands all pre q → a.classPlace = (q.enter c).classPlace →
    Told all pre q (functionsNodes fs c q i) a (analyzeFunctions fs a)
  | [], _, _, _, _, _, _, _, hs, _ => .refl hs
  | f :: fs, c, _, q, i, a, hc, h, hs, hplace => by
      have hplace' := (Analysis.classPlace_eq_of_walked (walked_function f a.at_place)).trans hplace
      exact .append h ((f.arranged c (h.proper i)).opened ((q.part i).opens_enter c))
        (functionsArranged fs c h.proper (i + 1)) (fun hf => f.told hc hf hs hplace)
        (fun hfs hs' => functionsTold fs hc hfs hs' hplace')

end

end Walk

/-- **The walk over a program** records what the rules say about its nodes. -/
theorem Program.told (program : Program) (known : Distances) :
    Told program.nodes [] .top program.nodes { distances := known }
      (Analysis.ofProgram program known) :=
  stmtsTold program program.situated rfl ⟨rfl, rfl, rfl⟩

/-! ### Keywords that are out of place -/

/-- **Keywords are reported if and only if they are out of place**, each once and in the order in
which they are visited: a `break` or `continue` in no body of a loop within the innermost
function, a `return` in no function, a `this` in no member of a class or in a static one, and the
superclass of a class that has the name of the class. -/
theorem Program.faults_eq_misplaced (program : Program) (known : Distances) :
    (Analysis.ofProgram program known).faults ScopeCause.isMisplacement
        = program.nodes.filterMap Node.misplaced
      ∧ (∀ t, ScopeFault.message ⟨.strayThis, t⟩ = "Can't use 'this' outside of a class.")
      ∧ ∀ t, ScopeFault.message ⟨.staticThis, t⟩ = "Can't use 'this' in a static method." :=
  ⟨(program.told known).misplaced_eq, fun _ => rfl, fun _ => rfl⟩

/-- A function in a loop is not in the loop, a function in a method is in the method, and what
follows a construct is where the construct is. -/
example :
    let lexed := Lexed.ofText ("while (1) \x7b fun f() \x7b break; this; \x7d continue; \x7d"
      ++ " class A < A \x7b m() \x7b fun () \x7b this; \x7d; \x7d class s() \x7b this; \x7d \x7d"
      ++ " return;") 1 0
    let program := (Program.ofTokens lexed.tokens lexed.final).program
    (program.nodes.filterMap Node.misplaced).map ScopeFault.cause
      = [.strayBreak, .strayThis, .inheritsItself, .staticThis, .strayReturn] := by
  decide +kernel

/-! ### Distances -/

/-- Records the distance of a name, if it has one. -/
def Distances.enter (known : Distances) (e : Token × Option Nat) : Distances :=
  match e.2 with
  | none => known
  | some d => known.insert e.1.position d

/-- Records the distances of names. -/
def Distances.enterAll (known : Distances) (es : List (Token × Option Nat)) : Distances :=
  es.foldl Distances.enter known

namespace Distances

theorem find?_enter (known : Distances) (e : Token × Option Nat) (k : Nat) :
    (known.enter e).find? k
      = if e.1.position = k then e.2.or (known.find? k) else known.find? k := by
  obtain ⟨t, d⟩ := e
  cases d with
  | none => simp [enter]
  | some d => simp [enter, Table.find?_insert]

theorem find?_enterAll_of_not_mem (known : Distances) {es : List (Token × Option Nat)} {k : Nat}
    (h : k ∉ es.map fun e => e.1.position) : (known.enterAll es).find? k = known.find? k := by
  induction es generalizing known with
  | nil => rfl
  | cons e es ih =>
    rw [List.map_cons, List.mem_cons, not_or] at h
    rw [enterAll, List.foldl_cons, ← enterAll, ih _ h.2, find?_enter, if_neg (Ne.symm h.1)]

/-- If no position comes twice, each name has the distance that was recorded for it. -/
theorem find?_enterAll_of_mem (known : Distances) {es : List (Token × Option Nat)}
    (hnodup : (es.map fun e => e.1.position).Nodup) {e : Token × Option Nat} (he : e ∈ es) :
    (known.enterAll es).find? e.1.position = e.2.or (known.find? e.1.position) := by
  induction es generalizing known with
  | nil => exact absurd he List.not_mem_nil
  | cons e' es ih =>
    rw [List.map_cons, List.nodup_cons] at hnodup
    rw [enterAll, List.foldl_cons, ← enterAll]
    rcases List.mem_cons.mp he with rfl | he
    · rw [find?_enterAll_of_not_mem _ hnodup.1, find?_enter, if_pos rfl]
    · have hne : e'.1.position ≠ e.1.position := fun heq =>
        hnodup.1 (heq ▸ List.mem_map_of_mem (f := fun e : Token × Option Nat => e.1.position) he)
      rw [ih _ hnodup.2 he, find?_enter, if_neg hne]

/-- If no position comes twice, the order in which distances are recorded does not matter. -/
theorem find?_enterAll_of_perm (known : Distances) {es es' : List (Token × Option Nat)}
    (hnodup : (es.map fun e => e.1.position).Nodup) (hperm : es'.Perm es) (k : Nat) :
    (known.enterAll es').find? k = (known.enterAll es).find? k := by
  have hpositions := hperm.map fun e => e.1.position
  by_cases hk : k ∈ es.map fun e => e.1.position
  · obtain ⟨e, he, rfl⟩ := List.mem_map.mp hk
    rw [find?_enterAll_of_mem known hnodup he,
      find?_enterAll_of_mem known (hpositions.nodup_iff.mpr hnodup) (hperm.mem_iff.mpr he)]
  · rw [find?_enterAll_of_not_mem known hk,
      find?_enterAll_of_not_mem known fun hk' => hk (hpositions.mem_iff.mp hk')]

end Distances

/-- The distances that the analysis adds are those of the names that it looks up. -/
theorem Analysis.distances_ofProgram (program : Program) (known : Distances) :
    (Analysis.ofProgram program known).distances
      = known.enterAll (Analysis.ofProgram program known).found := by
  obtain ⟨vs, hwalks⟩ := Analysis.walked_ofProgram program known
  rw [hwalks.distances_eq, Analysis.found, hwalks.visits_eq, Distances.enterAll, List.foldl_map]
  rfl

theorem Node.map_position_found (all ns : List Node) :
    (ns.filterMap (Node.found all)).map (fun e => e.1.position)
      = (ns.filterMap Node.lookup?).map Token.position := by
  rw [List.map_filterMap, List.map_filterMap]
  refine List.filterMap_congr fun n _ => ?_
  rw [Node.found, Option.map_map]
  rfl

/-- What it means that a scope declares a name before a point of the text. -/
theorem LexicalScope.holds_iff {all : List Node} {p : Path} {x : String} {σ : LexicalScope} :
    σ.holds all p x = true
      ↔ (σ.kind = .receiver ∧ x = "this") ∨ ∃ d ∈ all, d.declares σ x = true ∧ d.spot.path < p := by
  simp [holds]

/-- **The distances that are recorded follow from the text.**  The analysis looks up the names of
the program with their lexical distances.  If the occurrences of names have different positions,
the distance of each is what is found under its position afterwards; nothing is recorded
elsewhere; and the distances could be recorded in any other order.  A name has a distance if and
only if a scope around it contains a declaration of the name which the name is a part of or which
comes before it. -/
theorem Program.distances_eq_lexical (program : Program) (known : Distances) :
    (Analysis.ofProgram program known).found
        = program.nodes.filterMap (Node.found program.nodes)
      ∧ (((program.nodes.filterMap Node.lookup?).map Token.position).Nodup →
        (∀ n ∈ program.nodes, ∀ t ∈ n.lookup?,
          (Analysis.ofProgram program known).distances.find? t.position
            = (n.spot.distance program.nodes t.lexeme).or (known.find? t.position))
        ∧ (∀ k ∉ (program.nodes.filterMap Node.lookup?).map Token.position,
          (Analysis.ofProgram program known).distances.find? k = known.find? k)
        ∧ ∀ order : List Node, order.Perm program.nodes → ∀ k,
          (known.enterAll (order.filterMap (Node.found program.nodes))).find? k
            = (Analysis.ofProgram program known).distances.find? k)
      ∧ ∀ n ∈ program.nodes, ∀ x, x ≠ "this" →
        ((n.spot.distance program.nodes x).isSome = true
          ↔ ∃ σ ∈ n.spot.scopes, ∃ d ∈ program.nodes, d.declares σ x = true
            ∧ ((d.spot.path <+: n.spot.path ∧ d.spot.path ≠ n.spot.path)
              ∨ ∃ r i j, i < j ∧ r ++ [i] <+: d.spot.path ∧ r ++ [j] <+: n.spot.path)) := by
  have hfound := (program.told known).found_eq
  have hdistances := Analysis.distances_ofProgram program known
  change _ = program.nodes.filterMap (Node.found program.nodes) at hfound
  rw [hfound] at hdistances
  refine ⟨hfound, fun hnodup => ?_, fun n _ x hx => ?_⟩
  · rw [← Node.map_position_found program.nodes] at hnodup ⊢
    rw [hdistances]
    refine ⟨fun n hn t ht => ?_, fun k hk => Distances.find?_enterAll_of_not_mem known hk,
      fun order horder k =>
        Distances.find?_enterAll_of_perm known hnodup (horder.filterMap _) k⟩
    have hmem : (t, n.spot.distance program.nodes t.lexeme)
        ∈ program.nodes.filterMap (Node.found program.nodes) := by
      refine List.mem_filterMap.mpr ⟨n, hn, ?_⟩
      rw [Node.found, Option.mem_def.mp ht]
      rfl
    exact Distances.find?_enterAll_of_mem known hnodup hmem
  · rw [Spot.distance, List.findIdx?_isSome, List.any_eq_true]
    refine exists_congr fun σ => and_congr_right fun _ => ?_
    rw [LexicalScope.holds_iff, or_iff_right fun h => hx h.2]
    simp only [Path.lt_iff]

/-- The value of an assignment is visited before its target, a static method is not in the scope
that declares `this`, and what is declared later cannot be seen. -/
theorem Program.distances_eq_lexical_nested :
    let lexed := Lexed.ofText ("\x7b var a; fun f(b) \x7b a = b; fun () \x7b a(g); \x7d; \x7d"
      ++ " class K < f \x7b m() \x7b this.x = a; \x7d class s() \x7b a; \x7d \x7d"
      ++ " var g = K; \x7d") 1 0
    let program := (Program.ofTokens lexed.tokens lexed.final).program
    ((program.nodes.filterMap Node.lookup?).map Token.position).Nodup
      ∧ (∀ n ∈ program.nodes, ∀ t ∈ n.lookup?,
        (Analysis.ofProgram program .empty).distances.find? t.position
          = (n.spot.distance program.nodes t.lexeme).or ((.empty : Distances).find? t.position))
      ∧ (program.nodes.filterMap fun n =>
          n.lookup?.map fun t => (t.lexeme, n.spot.distance program.nodes t.lexeme))
        = [("b", some 0), ("a", some 1), ("a", some 2), ("g", none), ("f", some 0), ("a", some 1),
          ("a", some 2), ("this", some 1), ("K", some 0)] := by
  intro lexed program
  have hprogram : ((program.nodes.filterMap Node.lookup?).map Token.position).Nodup
      ∧ (program.nodes.filterMap fun n =>
          n.lookup?.map fun t => (t.lexeme, n.spot.distance program.nodes t.lexeme))
        = [("b", some 0), ("a", some 1), ("a", some 2), ("g", none), ("f", some 0), ("a", some 1),
          ("a", some 2), ("this", some 1), ("K", some 0)] := by
    decide +kernel
  exact ⟨hprogram.1, ((Program.distances_eq_lexical program .empty).2.1 hprogram.1).1, hprogram.2⟩

/-! ### Names that are declared twice or not used -/

/-- **Declarations are reported if and only if they are wrong or in vain.**  A declaration is
reported, once and at its name, if its scope contains an earlier declaration of the name.  If
there is no such declaration, the remarks are on those local variables, functions and classes to
which no node of the program refers, once each; a `this` refers to nothing else. -/
theorem Program.declarations_exact (program : Program) (known : Distances) :
    (Analysis.ofProgram program known).faults (· == .redeclared)
        = program.nodes.filterMap (Node.redeclared program.nodes)
      ∧ (∀ n ∈ program.nodes, ∀ t ∈ n.kind.declared?, ∀ σ ∈ n.scope?,
        (n.redeclared program.nodes = some ⟨.redeclared, t⟩
          ↔ ∃ d ∈ program.nodes, d.declares σ t.lexeme = true ∧ d.spot.path < n.spot.path))
      ∧ ((∀ n ∈ program.nodes, n.redeclared program.nodes = none) →
        (Analysis.ofProgram program known).remarks.Perm
          (program.nodes.filterMap (Node.unused program.nodes)))
      ∧ (∀ n ∈ program.nodes, ∀ keyword, n.kind = .this keyword → keyword.lexeme = "this" →
        ∀ σ x, n.refersTo program.nodes σ x = true → x = "this")
      ∧ (∀ t, ScopeFault.message ⟨.redeclared, t⟩
        = "Already a variable named '" ++ t.lexeme ++ "' in this scope.")
      ∧ ∀ x, unusedMessage x = "Local variable '" ++ x ++ "' is never used." := by
  have htold := program.told known
  refine ⟨htold.redeclared_eq, fun n hn t ht σ hσ => ?_, fun hnone => ?_,
    fun n _ keyword hkind hthis σ x hrefers => ?_, fun _ => rfl, fun _ => rfl⟩
  · have hplain : σ.kind ≠ .receiver :=
      program.plain_nodes n hn (Option.isSome_of_mem ht) σ hσ
    have hholds : σ.holds program.nodes n.spot.path t.lexeme = true
        ↔ ∃ d ∈ program.nodes, d.declares σ t.lexeme = true ∧ d.spot.path < n.spot.path := by
      rw [LexicalScope.holds_iff, or_iff_right fun h => hplain h.1]
    rw [← hholds, Node.redeclared]
    simp only [Option.mem_def.mp ht, Option.mem_def.mp hσ]
    split <;> simp_all
  · have hremarks := htold.remarks_perm hnone
    have hbeyond : Node.unusedBeyond program.nodes [] = Node.unused program.nodes := by
      funext n
      rw [Node.unusedBeyond, Node.unused]
      cases n.scope? with
      | none => cases n.kind.watched? <;> rfl
      | some σ => rfl
    exact hbeyond ▸ hremarks
  · obtain ⟨t, ht, hx⟩ := (Option.any_eq_true _ _).mp hrefers
    rw [Bool.and_eq_true, beq_iff_eq] at hx
    rw [Node.lookup?, hkind] at ht
    simp only [Option.ite_none_right_eq_some, Option.some.injEq] at ht
    rw [← hx.1, ← ht.2, hthis]

/-- A name is used if a function refers to it, be it by an assignment or in its own initializer;
a name in an inner scope does not stand in for one that is declared further out. -/
theorem Program.declarations_exact_shadowed :
    let lexed := Lexed.ofText ("var t; fun f(p) \x7b var a; var b; fun g(q) \x7b b = 3; \x7d"
      ++ " \x7b var a; a; \x7d class C \x7b m() \x7b var b; this; \x7d \x7d var c = c; \x7d") 1 0
    let program := (Program.ofTokens lexed.tokens lexed.final).program
    (∀ n ∈ program.nodes, n.redeclared program.nodes = none)
      ∧ (Analysis.ofProgram program .empty).remarks.Perm
        (program.nodes.filterMap (Node.unused program.nodes))
      ∧ (program.nodes.filterMap (Node.unused program.nodes)).map Prod.fst
        = ["a", "g", "C", "b"] := by
  intro lexed program
  have hprogram : (∀ n ∈ program.nodes, n.redeclared program.nodes = none)
      ∧ (program.nodes.filterMap (Node.unused program.nodes)).map Prod.fst
        = ["a", "g", "C", "b"] := by
    decide +kernel
  exact ⟨hprogram.1, (Program.declarations_exact program .empty).2.2.1 hprogram.1, hprogram.2⟩

end LoxLang
