import LoxLang.Proofs.Program.Descent
import LoxLang.Proofs.Program.Tokens

/-!
# What is accepted as a program

Tokens that are read without fault form a program of the grammar, all of them and in
their order, and the program that is given back is the one they form.  What occurs in it
was written with them, each token used for one thing at most.

## Main results

* `Program.grammatical_of_faults_eq_nil` — what is read without fault is of the grammar.
-/

namespace LoxLang

/-- Tokens that are read without fault form the program that is given back. -/
theorem Program.grammatical_of_faults_eq_nil {tokens : List Token} {final : Token}
    (h : (Program.ofTokens tokens final).faults = []) :
    Derives (.declarations (Program.ofTokens tokens final).program) tokens
      ∧ (∀ i ∈ stmtsItems (Program.ofTokens tokens final).program, i.WrittenIn tokens)
      ∧ ∀ k, ((stmtsItems (Program.ofTokens tokens final).program).map Item.position).count k
          ≤ (tokens.map Token.position).count k := by
  have hderives := Program.ofTokens_derives h
  exact ⟨hderives, hderives.writtenIn, hderives.count_position_le⟩

/-- An `else` behind two `if`s belongs to the second one, as in
`if (a) if (b) c = d = e; else f.g = h;`. -/
theorem Program.grammatical_nested_if :
    let tokens : List Token :=
      [⟨.kwIf, "if", .nil, 1, 0⟩, ⟨.leftParen, "(", .nil, 1, 1⟩, ⟨.identifier, "a", .nil, 1, 2⟩,
        ⟨.rightParen, ")", .nil, 1, 3⟩, ⟨.kwIf, "if", .nil, 1, 4⟩, ⟨.leftParen, "(", .nil, 1, 5⟩,
        ⟨.identifier, "b", .nil, 1, 6⟩, ⟨.rightParen, ")", .nil, 1, 7⟩,
        ⟨.identifier, "c", .nil, 1, 8⟩, ⟨.equal, "=", .nil, 1, 9⟩, ⟨.identifier, "d", .nil, 1, 10⟩,
        ⟨.equal, "=", .nil, 1, 11⟩, ⟨.identifier, "e", .nil, 1, 12⟩, ⟨.semicolon, ";", .nil, 1, 13⟩,
        ⟨.kwElse, "else", .nil, 1, 14⟩, ⟨.identifier, "f", .nil, 1, 15⟩, ⟨.dot, ".", .nil, 1, 16⟩,
        ⟨.identifier, "g", .nil, 1, 17⟩, ⟨.equal, "=", .nil, 1, 18⟩,
        ⟨.identifier, "h", .nil, 1, 19⟩, ⟨.semicolon, ";", .nil, 1, 20⟩]
    let program : Program :=
      [.ifElse (.variable ⟨.identifier, "a", .nil, 1, 2⟩)
        (.ifElse (.variable ⟨.identifier, "b", .nil, 1, 6⟩)
          (.expression (.assign ⟨.identifier, "c", .nil, 1, 8⟩
            (.assign ⟨.identifier, "d", .nil, 1, 10⟩ (.variable ⟨.identifier, "e", .nil, 1, 12⟩))))
          (some (.expression (.set (.variable ⟨.identifier, "f", .nil, 1, 15⟩)
            ⟨.identifier, "g", .nil, 1, 17⟩ (.variable ⟨.identifier, "h", .nil, 1, 19⟩)))))
        none]
    Program.ofTokens tokens (.endOfText 1 21) = ⟨program, []⟩
      ∧ Derives (.declarations program) tokens := by
  intro tokens program
  have hparsed : Program.ofTokens tokens (.endOfText 1 21) = ⟨program, []⟩ := by cbv
  refine ⟨hparsed, ?_⟩
  have h := Program.grammatical_of_faults_eq_nil (congrArg Parsed.faults hparsed)
  rw [hparsed] at h
  exact h.1

end LoxLang
