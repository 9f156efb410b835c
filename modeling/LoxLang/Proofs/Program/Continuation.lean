import LoxLang.Proofs.Program.Completeness
import LoxLang.Proofs.Program.Recovery

/-!
# What follows a program

Tokens that form a program are read as that program, whatever comes behind them, and what comes
behind is read as if it stood alone.  A declaration ends with a semicolon, a brace or a smaller
statement; none of these goes on, but for an `if` that lacks an `else`.  So the tokens behind may
be anything that does not begin with `else`, be it a program or not: the reading of the first
part records nothing, and the recovery from faults in the second part never looks back.

## Main results

* `Derives.becomes_program` — behind the declarations of a program, the reading goes on.
* `Program.ofTokens_append` — **a program is read apart from what follows it.**
-/

namespace LoxLang

/-- What is behind a declaration of a program, up to the end of it and beyond, does not begin
with `else`. -/
theorem Derives.nextIsNot_else {program : Program} {ts us : List Token}
    (h : Derives (.declarations program) ts) (hus : NextIsNot .kwElse us) :
    NextIsNot .kwElse (ts ++ us) := by
  cases h with
  | declarationsNil => exact hus
  | declarationsCons hfirst _ =>
    obtain ⟨t, vs, rfl, helse, -⟩ := hfirst.declaration_begins
    exact nextIsNot_cons.mpr helse

/-- Behind the declarations of a program, the reading of a program goes on with the rest.  Each
of them costs one step of depth and takes a token at least, so there is enough depth left. -/
theorem Derives.becomes_program {program : Program} {ts us : List Token}
    (h : Derives (.declarations program) ts) (hus : NextIsNot .kwElse us) {n : Nat}
    (hn : descentBound (ts.length + us.length) ≤ n) :
    ∃ k, descentBound us.length ≤ k
      ∧ Becomes (readProgram n) (ts ++ us)
          (readProgram k >>= fun rest => pure (program ++ rest)) us := by
  induction program generalizing ts n with
  | nil =>
    cases h
    refine ⟨n, by simpa using hn, fun final faults => ?_⟩
    rw [List.nil_append]
    simp only [Bind.bind, EStateM.bind]
    cases readProgram n ⟨us, final, faults⟩ <;> rfl
  | cons s ss ih =>
    cases h with
    | @declarationsCons _ _ ts ts' hfirst hmore =>
      unfold descentBound at hn ih ⊢
      rw [List.length_append] at hn
      obtain ⟨n, rfl⟩ : ∃ k, n = k + 1 := ⟨n - 1, by omega⟩
      have htaken := hfirst.taken n (ts' ++ us) (by rw [List.length_append]; omega)
        (hmore.nextIsNot_else hus)
      obtain ⟨t, vs, rfl, -⟩ := hfirst.declaration_begins
      rw [List.length_cons] at hn
      obtain ⟨k, hk, hrest⟩ := ih hmore (n := n) (by omega)
      refine ⟨k, hk, ?_⟩
      rw [readProgram, List.append_assoc]
      have hgoes : Takes atEnd (t :: vs ++ (ts' ++ us)) Bool.false (t :: vs ++ (ts' ++ us)) :=
        fun _ _ => rfl
      refine (hgoes.becomes.trans htaken.becomes).trans fun final faults => ?_
      have hread := hrest final faults
      simp only [Bind.bind, EStateM.bind] at hread ⊢
      rw [hread]
      cases readProgram k ⟨us, final, faults⟩ <;> rfl

/-- **A program is read apart from what follows it.**  If tokens are read without fault, then
together with any others that do not begin with `else` they are read as the same statements,
followed by what the others are read as on their own, and exactly the faults of the others are
found. -/
theorem Program.ofTokens_append {ts us : List Token} {final final' : Token}
    (hts : (Program.ofTokens ts final').faults = []) (hus : NextIsNot .kwElse us) :
    Program.ofTokens (ts ++ us) final
      = ⟨(Program.ofTokens ts final').program ++ (Program.ofTokens us final).program,
          (Program.ofTokens us final).faults⟩ := by
  have hderives := Program.ofTokens_derives hts
  obtain ⟨k, hk, hbecomes⟩ := hderives.becomes_program hus (Nat.le_refl _)
  obtain ⟨r, -, -, hfaults, hread⟩ := readProgram_eq_ofTokens us final
  have hwhole : readProgram (descentBound (ts ++ us).length) ⟨ts ++ us, final, #[]⟩
      = .ok ((Program.ofTokens ts final').program ++ (Program.ofTokens us final).program) r := by
    rw [List.length_append, hbecomes final #[]]
    simp only [Bind.bind, EStateM.bind, hread k hk]
    rfl
  rw [← hfaults]
  unfold Program.ofTokens at hwhole ⊢
  rw [hwhole]

/-- The first part ends with an `if` without an `else`, and the second begins in the middle of an
expression, closes a block that is not open and lacks a name. -/
theorem Program.ofTokens_append_broken :
    let first := Lexed.ofText "fun f(x) \x7b return x; \x7d if (f) while (f(1)) f = g.h = nil;" 1 0
    let second := Lexed.ofText "+ 1; \x7d print f; var = 2; class A < ; print 3; (" 2 60
    (Program.ofTokens first.tokens first.final).faults = []
      ∧ NextIsNot .kwElse second.tokens
      ∧ Program.ofTokens (first.tokens ++ second.tokens) second.final
        = ⟨(Program.ofTokens first.tokens first.final).program
            ++ (Program.ofTokens second.tokens second.final).program,
          (Program.ofTokens second.tokens second.final).faults⟩
      ∧ (Program.ofTokens second.tokens second.final).program.length = 3
      ∧ (Program.ofTokens second.tokens second.final).faults.map SyntaxFault.cause
        = [.noLeftOperand .addition, .noExpression, .noName .variableName,
          .noName .superclassName, .noExpression] := by
  intro first second
  have hfirst : (Program.ofTokens first.tokens first.final).faults = [] := by decide +kernel
  have hsecond : NextIsNot .kwElse second.tokens := by
    unfold NextIsNot
    decide +kernel
  exact ⟨hfirst, hsecond, Program.ofTokens_append hfirst hsecond, by decide +kernel,
    by decide +kernel⟩

end LoxLang
