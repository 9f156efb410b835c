import LoxLang.Proofs.Program.Grammar
import LoxLang.Proofs.Program.Occurrence

/-!
# The tokens of a program

What occurs in a program was written with the tokens that form it, and no two things
that occur were written with the same token.  If the tokens have different positions,
then so has all that occurs; a position therefore tells apart the occurrences of names
and the constructs that open scopes.

## Main definitions

* `Item.WrittenIn` — something that occurs was written with one of some tokens.
* `Phrase.items` — what occurs in a phrase.

## Main results

* `Derives.writtenIn` — what occurs in a phrase was written with its tokens.
* `Derives.count_position_le` — each token was used at most once.
-/

namespace LoxLang

/-- The kinds of the operators between operands that are both evaluated. -/
def TokenKind.isBinary : TokenKind → Bool
  | .comma | .bangEqual | .equalEqual | .greater | .greaterEqual | .less | .lessEqual
  | .minus | .plus | .slash | .star => true
  | _ => false

/-- Something that occurs was written with one of some tokens. -/
def Item.WrittenIn (ts : List Token) : Item → Prop
  | .name t => t ∈ ts
  | .unary operator => operator ∈ ts
  | .binary operator => operator ∈ ts ∧ operator.kind.isBinary
  | .call paren => paren ∈ ts
  | .property t => t ∈ ts
  | .break keyword => keyword ∈ ts
  | .continue keyword => keyword ∈ ts
  | .return keyword => keyword ∈ ts
  | .opens _ => True

theorem Item.WrittenIn.mono {ts us : List Token} {i : Item} (h : i.WrittenIn ts)
    (hsub : ts ⊆ us) : i.WrittenIn us := by
  cases i with
  | binary operator => exact ⟨hsub h.1, h.2⟩
  | opens _ => trivial
  | name | unary | call | property | «break» | «continue» | «return» => exact hsub h

theorem Item.writtenIn_append {ts us : List Token} {i : Item} :
    i.WrittenIn (ts ++ us) ↔ i.WrittenIn ts ∨ i.WrittenIn us := by
  cases i <;> simp only [WrittenIn, List.mem_append, or_and_right, or_self]

theorem Item.writtenIn_cons {t : Token} {ts : List Token} {i : Item} :
    i.WrittenIn (t :: ts) ↔ i.WrittenIn [t] ∨ i.WrittenIn ts := by
  rw [← List.singleton_append, Item.writtenIn_append]

/-! ### What occurs in a phrase -/

/-- What occurs in a phrase outside of everything. -/
def Phrase.occurrences : Phrase → List Occurrence
  | .expr _ e => e.occurrences .top
  | .optional none => []
  | .optional (some e) => e.occurrences .top
  | .arguments es => exprsOccurrences es .top
  | .variable s => s.occurrences .top
  | .clause none => []
  | .clause (some s) => s.occurrences .top
  | .statement _ s => s.occurrences .top
  | .declaration s => s.occurrences .top
  | .declarations ss => stmtsOccurrences ss .top
  | .body ss => stmtsOccurrences ss .top
  | .function _ f => f.occurrences .top
  | .members methods statics =>
      functionsOccurrences methods .top ++ functionsOccurrences statics .top

/-- What occurs in a phrase. -/
def Phrase.items (phrase : Phrase) : List Item := phrase.occurrences.map Occurrence.item

/-- An operator of a level joins operands that are both evaluated, unless it is `and` or
`or`. -/
theorem Level.join_eq {level : Level} {operator : Token} (hop : operator.kind ∈ level.operators)
    (l r : Expr) :
    level.join l operator r = .logical l operator r
      ∨ level.join l operator r = .binary l operator r ∧ operator.kind.isBinary := by
  cases level with
  | disjunction | conjunction => exact .inl rfl
  | _ =>
    refine .inr ⟨rfl, ?_⟩
    revert hop
    generalize operator.kind = kind
    revert kind
    decide

/-- What occurs in a phrase that is kept in the form of a `for` loop. -/
theorem Phrase.items_forLoop (position : Nat) (initializer : Option Stmt)
    (condition increment : Option Expr) (s : Stmt) (hanging : Bool) :
    (Phrase.statement hanging (forLoop position initializer condition increment s)).items
      = (initializer.toList.map fun _ => .opens (.block position))
        ++ ((Phrase.clause initializer).items ++ ((Phrase.optional condition).items
          ++ ((Phrase.statement hanging s).items ++ (Phrase.optional increment).items))) := by
  cases initializer <;> cases condition <;> cases increment <;>
    simp [items, occurrences, forLoop, Stmt.occurrences, stmtsOccurrences, Expr.occurrences,
      Expr.map_item_occurrences, Stmt.map_item_occurrences]

/-- What occurs in a `return` statement. -/
theorem Phrase.items_return (hanging : Bool) (keyword : Token) (e : Option Expr) :
    (Phrase.statement hanging (.return keyword e)).items
      = .return keyword :: (Phrase.optional e).items := by
  cases e <;> rfl

/-- What occurs in the declaration of a class. -/
theorem Phrase.items_classDecl (name : Token) (superclass : Option Token)
    (methods statics : List FunctionDecl) :
    (Phrase.declaration (.classDecl name superclass methods statics)).items
      = .opens (.receiver name.position) :: (superclass.toList.map .name
        ++ (functionsItems statics ++ functionsItems methods)) := by
  simp only [items, occurrences, Stmt.occurrences, List.map_cons, List.map_append, List.map_map,
    map_item_functionsOccurrences]
  rfl

/-! ### Tokens and what they are used for -/

/-- What occurs in a phrase was written with its tokens. -/
theorem Derives.writtenIn {phrase : Phrase} {ts : List Token} (h : Derives phrase ts) :
    ∀ i ∈ phrase.items, i.WrittenIn ts := by
  induction h with
  | @join level l r operator ls rs hop hl hr ihl ihr =>
    rcases Level.join_eq hop l r with heq | ⟨heq, hk⟩ <;> rw [heq] <;>
      simp only [Phrase.items, Phrase.occurrences, Expr.occurrences, List.map_append,
        List.map_cons, Expr.map_item_occurrences] at ihl ihr ⊢ <;>
      grind [Item.WrittenIn, Item.writtenIn_append, Item.writtenIn_cons]
  | «for» hk hl hi hc hsemi hu hr hs ihi ihc ihu ihs =>
    rw [Phrase.items_forLoop]
    grind [Item.WrittenIn, Item.writtenIn_append, Item.writtenIn_cons]
  | «return» hk h hsemi ih =>
    rw [Phrase.items_return]
    grind [Item.WrittenIn, Item.writtenIn_append, Item.writtenIn_cons]
  | @classDeclaration keyword name _ _ superclass methods statics ss ms hk hname hs hl hm hr ih =>
    have hsuper : ∀ i ∈ superclass.toList.map Item.name, i.WrittenIn ss := by
      cases hs <;> simp [Item.WrittenIn]
    simp only [Phrase.items, Phrase.occurrences, List.map_append,
      map_item_functionsOccurrences, List.forall_mem_append] at ih
    rw [Phrase.items_classDecl]
    grind [Item.WrittenIn, Item.writtenIn_append, Item.writtenIn_cons]
  | _ =>
    -- the tokens are those of the parts, and marks; what occurs is what occurs in the parts,
    -- and perhaps one mark
    simp only [Phrase.items, Phrase.occurrences, Expr.occurrences, exprsOccurrences,
      Stmt.occurrences, stmtsOccurrences, FunctionDecl.occurrences, functionsOccurrences,
      Expr.map_item_occurrences, map_item_exprsOccurrences, Stmt.map_item_occurrences,
      map_item_stmtsOccurrences, FunctionDecl.map_item_occurrences,
      map_item_functionsOccurrences, List.map_cons, List.map_append, List.map_nil] at *
    grind [Item.WrittenIn, Item.writtenIn_append, Item.writtenIn_cons]

/-- Each token was used at most once. -/
theorem Derives.count_position_le {phrase : Phrase} {ts : List Token} (h : Derives phrase ts)
    (k : Nat) : (phrase.items.map Item.position).count k ≤ (ts.map Token.position).count k := by
  induction h with
  | @join level l r operator ls rs hop hl hr ihl ihr =>
    rcases Level.join_eq hop l r with heq | ⟨heq, -⟩ <;> rw [heq] <;>
      simp only [Phrase.items, Phrase.occurrences, Expr.occurrences, Expr.map_item_occurrences,
        List.map_append, List.map_cons, List.count_append, List.count_cons,
        Item.position] at ihl ihr ⊢ <;>
      omega
  | @«for» keyword _ _ _ initializer _ _ _ _ is _ _ _ _ _ _ _ _ _ _ _ ihi ihc ihu ihs =>
    -- the block around the loop is known by the keyword, and is there only with a clause
    have hblock : ((initializer.toList.map fun _ => Item.opens (.block keyword.position)).map
        Item.position).count k ≤ [keyword.position].count k := by
      cases initializer with
      | none => exact Nat.zero_le _
      | some _ => exact Nat.le_refl _
    rw [Phrase.items_forLoop]
    simp only [List.map_append, List.map_cons, List.cons_append, List.count_append,
      List.count_cons, List.count_nil] at ihi ihc ihu ihs hblock ⊢
    omega
  | «return» hk h hsemi ih =>
    rw [Phrase.items_return]
    simp only [List.map_append, List.map_cons, List.cons_append, List.count_append,
      List.count_cons, Item.position] at ih ⊢
    omega
  | @classDeclaration keyword name _ _ superclass methods statics ss ms hk hname hs hl hm hr ih =>
    have hsuper : ((superclass.toList.map Item.name).map Item.position).count k
        ≤ (ss.map Token.position).count k := by
      cases hs <;> simp [Item.position, List.count_cons]
    simp only [Phrase.items, Phrase.occurrences, List.map_append, List.count_append,
      map_item_functionsOccurrences] at ih
    rw [Phrase.items_classDecl]
    simp only [List.map_append, List.map_cons, List.cons_append, List.count_append,
      List.count_cons, Item.position, Site.position]
    omega
  | _ =>
    simp only [Phrase.items, Phrase.occurrences, Expr.occurrences, exprsOccurrences,
      Stmt.occurrences, stmtsOccurrences, FunctionDecl.occurrences, functionsOccurrences,
      Expr.map_item_occurrences, map_item_exprsOccurrences, Stmt.map_item_occurrences,
      map_item_stmtsOccurrences, FunctionDecl.map_item_occurrences,
      map_item_functionsOccurrences, List.map_cons, List.map_append, List.map_nil,
      List.cons_append, List.count_append, List.count_cons, List.count_nil, Item.position,
      Site.position] at *
    omega

end LoxLang
