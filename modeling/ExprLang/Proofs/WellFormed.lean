import ExprLang.Proofs.Forest.Walk
import ExprLang.Proofs.Language
import ExprLang.Proofs.Parse.Statements

/-!
The tree of a parse. Whatever the text is, owners and parts name one another, parts stand in text
order without overlap and inside their owners; and a parse that has not stopped leaves no item behind
that is not in the tree.
-/

namespace ExprLang

namespace Forest

/-- Links and spans of a forest fit together. -/
structure WellFormed (forest : Forest) : Prop where
  /-- An item stands in a section of just the one that it names as its parent. -/
  parent : ∀ owner part, forest.Owns owner part ↔ forest.parent? part = some owner
  once : ∀ owner, (forest.parts owner).all.Nodup
  children : ∀ owner, (forest.parts owner).children.Sublist (forest.parts owner).regular
  token : ∀ id, forest.IsToken id → (forest.parts id).named = []
  acyclic : ∀ id, ¬ Relation.TransGen (fun part owner => forest.parent? part = some owner) id id
  inOrder : ∀ owner, (forest.parts owner).all.Pairwise fun x y => forest.start x < forest.start y
  apart : ∀ owner, (forest.parts owner).all.Pairwise fun x y => forest.stop x ≤ forest.start y
  covered : ∀ owner part, forest.Owns owner part →
    forest.start owner ≤ forest.start part ∧ forest.stop part ≤ forest.stop owner

theorem Sound.wellFormed {forest : Forest} (sound : forest.Sound) : forest.WellFormed where
  parent := sound.linked.parent
  once := sound.linked.once
  children := sound.linked.children
  token _ isToken := isToken.named sound.linked
  acyclic := sound.linked.acyclic_up
  inOrder owner := (sound.laid owner).imp And.left
  apart owner := (sound.laid owner).imp And.right
  covered _ _ := span_of_part sound.linked sound.laid

end Forest

open ParseState

namespace Grammar

variable {grammar : Grammar} {config : Config} {isLiteralChar : Char → Nat → Bool}
  {extensions : List Extension}

/-- An extension that takes the word behind its keyword. -/
def wordExtension : Extension where
  name := "word"
  keywords := [1]
  category := .regular
  accepts := ""
  steps := [.word]

theorem tidy_of_wordExtension (only : ∀ extension ∈ grammar.extensions, extension = wordExtension)
    (text : Text) : grammar.Tidy text := by
  intro depth extension trigger s called _ _ parts t run
  obtain ⟨given, member, among⟩ := List.mem_flatMap.mp called.offered
  obtain ⟨_, _, rfl⟩ := List.mem_map.mp among
  obtain rfl := only given member
  have ends : Ends (Script.steps grammar (Parse.segment grammar depth) wordExtension trigger []
      wordExtension.steps) s (fun parts t => Listed s t parts) (fun _ _ => True) := by
    unfold wordExtension
    simp only [Script.steps, Script.step, bind_pure, ends_get_bind]
    split
    · exact ends_throw trivial
    · refine ends_ok rfl ⟨fun id made => ?_, List.pairwise_singleton _ _⟩
      -- The token is all that is new.
      obtain ⟨new, inside, _⟩ := made
      have one : id < s.forest.size + 1 := Nat.lt_of_lt_of_eq inside (Forest.size_push _)
      exact List.mem_singleton.mpr (Nat.le_antisymm (Nat.le_of_lt_succ one) new)
  exact ends.of_ok run

def wordDocument : Document := (sampleGrammar [wordExtension]).parse "const word x + (y"

end Grammar

end ExprLang
