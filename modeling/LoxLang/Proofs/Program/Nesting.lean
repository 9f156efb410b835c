import LoxLang.Proofs.Program.Occurrence
import Mathlib.Data.List.Nodup

/-!
# Constructs within constructs

The constructs around what occurs in a program all occur in the program themselves.  If all
that occurs has positions of its own, no construct is therefore around itself.

## Main definitions

* `Nested` — what occurs at a place and within constructs there.

## Main results

* `Program.nodup_sites` — the constructs around what occurs are different.
-/

namespace LoxLang

/-- What occurs at a place and within constructs there: the constructs between the place and
what occurs, outermost first, are among those that occur, in the same order. -/
def Nested (p : Place) (os : List Occurrence) : Prop :=
  ∀ o ∈ os, ∃ path : List Site, o.place.sites = path.reverse ++ p.sites
    ∧ (path.map Site.position).Sublist (os.map fun o => o.item.position) ∧ .globals ∉ path

namespace Nested

variable {p q : Place} {os os' : List Occurrence}

theorem nil (p : Place) : Nested p [] := fun _ ho => absurd ho List.not_mem_nil

theorem append (h : Nested p os) (h' : Nested p os') : Nested p (os ++ os') := by
  intro o ho
  rw [List.map_append]
  rcases List.mem_append.mp ho with ho | ho
  · obtain ⟨path, hpath, hsub, hglobals⟩ := h o ho
    exact ⟨path, hpath, hsub.trans (List.sublist_append_left _ _), hglobals⟩
  · obtain ⟨path, hpath, hsub, hglobals⟩ := h' o ho
    exact ⟨path, hpath, hsub.trans (List.sublist_append_right _ _), hglobals⟩

/-- Something that occurs at the place itself. -/
theorem cons (h : Nested p os) (i : Item) : Nested p (⟨p, i⟩ :: os) := by
  intro o ho
  rcases List.mem_cons.mp ho with rfl | ho
  · exact ⟨[], rfl, List.nil_sublist _, List.not_mem_nil⟩
  · obtain ⟨path, hpath, hsub, hglobals⟩ := h o ho
    exact ⟨path, hpath, hsub.cons _, hglobals⟩

/-- A construct, what occurs beside it, and what occurs within it. -/
theorem opens (h : Nested p os) (h' : Nested q os') {site : Site}
    (hq : q.sites = site :: p.sites) (hsite : site ≠ .globals) :
    Nested p (⟨p, .opens site⟩ :: (os ++ os')) := by
  intro o ho
  rw [List.map_cons, List.map_append]
  rcases List.mem_cons.mp ho with rfl | ho
  · exact ⟨[], rfl, List.nil_sublist _, List.not_mem_nil⟩
  rcases List.mem_append.mp ho with ho | ho
  · obtain ⟨path, hpath, hsub, hglobals⟩ := h o ho
    exact ⟨path, hpath, (hsub.trans (List.sublist_append_left _ _)).cons _, hglobals⟩
  · obtain ⟨path, hpath, hsub, hglobals⟩ := h' o ho
    refine ⟨site :: path, ?_, (hsub.trans (List.sublist_append_right _ _)).cons_cons _, ?_⟩
    · rw [hpath, hq, List.reverse_cons, List.append_assoc]
      rfl
    · rw [List.mem_cons, not_or]
      exact ⟨Ne.symm hsite, hglobals⟩

end Nested

mutual

theorem Expr.nested : ∀ (e : Expr) (p : Place), Nested p (e.occurrences p)
  | .literal _, p => .nil p
  | .grouping e, p => e.nested p
  | .unary _ e, p => (e.nested p).cons _
  | .binary l _ r, p => ((l.nested p).append (r.nested p)).cons _
  | .logical l _ r, p => (l.nested p).append (r.nested p)
  | .conditional c t e, p => (c.nested p).append ((t.nested p).append (e.nested p))
  | .assign _ e, p => (e.nested p).append ((Nested.nil p).cons _)
  | .variable _, p => (Nested.nil p).cons _
  | .call callee _ es, p => ((callee.nested p).append (nested_exprs es p)).cons _
  | .get e _, p => (e.nested p).cons _
  | .set e _ v, p => ((v.nested p).append (e.nested p)).cons _
  | .this _, p => (Nested.nil p).cons _
  | .lambda _ _ body, p => (Nested.nil p).opens (nested_stmts body _) rfl nofun

theorem nested_exprs : ∀ (es : List Expr) (p : Place), Nested p (exprsOccurrences es p)
  | [], p => .nil p
  | e :: es, p => (e.nested p).append (nested_exprs es p)

theorem Stmt.nested : ∀ (s : Stmt) (p : Place), Nested p (s.occurrences p)
  | .expression e, p => e.nested p
  | .print e, p => e.nested p
  | .var _ none, p => .nil p
  | .var _ (some e), p => e.nested p
  | .block _ body, p => (Nested.nil p).opens (nested_stmts body _) rfl nofun
  | .ifElse c t none, p => (c.nested p).append (t.nested p)
  | .ifElse c t (some e), p => (c.nested p).append ((t.nested p).append (e.nested p))
  | .while c body none, p => (c.nested p).append (body.nested p.loop)
  | .while c body (some i), p =>
      (c.nested p).append (Nested.append (body.nested p.loop) (i.nested p.loop))
  | .break _, p => (Nested.nil p).cons _
  | .continue _, p => (Nested.nil p).cons _
  | .function f, p => f.nested p
  | .return _ none, p => (Nested.nil p).cons _
  | .return _ (some e), p => (e.nested p).cons _
  | .classDecl name superclass methods statics, p => by
      have hsuper : Nested p (superclass.toList.map fun s => ⟨p, .name s⟩) := by
        cases superclass with
        | none => exact .nil p
        | some t => exact (Nested.nil p).cons _
      rw [Stmt.occurrences, ← List.append_assoc]
      exact (hsuper.append (nested_functions statics p)).opens (nested_functions methods _) rfl
        nofun

theorem nested_stmts : ∀ (ss : List Stmt) (p : Place), Nested p (stmtsOccurrences ss p)
  | [], p => .nil p
  | s :: ss, p => (s.nested p).append (nested_stmts ss p)

theorem FunctionDecl.nested : ∀ (f : FunctionDecl) (p : Place), Nested p (f.occurrences p)
  | .mk _ _ body, p => (Nested.nil p).opens (nested_stmts body _) rfl nofun

theorem nested_functions : ∀ (fs : List FunctionDecl) (p : Place),
    Nested p (functionsOccurrences fs p)
  | [], p => .nil p
  | f :: fs, p => (f.nested p).append (nested_functions fs p)

end

/-- The constructs around what occurs in a program are different, if all that occurs has
different positions. -/
theorem Program.nodup_sites {program : Program}
    (h : (program.occurrences.map fun o => o.item.position).Nodup) {o : Occurrence}
    (ho : o ∈ program.occurrences) : o.place.sites.Nodup := by
  obtain ⟨path, hpath, hsub, hglobals⟩ := nested_stmts program .top o ho
  have hnodup : path.Nodup := List.Nodup.of_map _ (hsub.nodup h)
  rw [hpath]
  refine List.nodup_append.mpr ⟨List.nodup_reverse.mpr hnodup, List.nodup_singleton _, ?_⟩
  intro site hsite site' hsite' heq
  rw [List.mem_singleton.mp hsite'] at heq
  exact hglobals (heq ▸ List.mem_reverse.mp hsite)

end LoxLang
