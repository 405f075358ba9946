import ExprLang.Proofs.Parse.Statements
import ExprLang.Proofs.Precedence.Building

/-!
Precedence and associativity. A row of operands with a binary operator between each two becomes one
tree, whatever the priorities are. The tree takes the operands and operators in their order, and it
is the only one in which

* no binary operator takes a looser one, nor on its right one that is as tight,
* unary operators bind tighter than binary ones,
* and the unary operators of an operand are mixed by priority.
-/

namespace ExprLang

open Held (item)

open ParseState

namespace Slot

variable {slots : List Slot}

theorem Proper.fits {slot : Slot} (proper : slot.Proper) : slot.Fits :=
  ⟨fun chosen member => (proper.prefixes chosen member).kind,
    fun chosen member => (proper.postfixes chosen member).kind,
    fun chosen isLink => (proper.link chosen isLink).kind⟩

/-- An unbroken row is a row without anything left over. -/
theorem Unbroken.arranged (unbroken : Unbroken slots) (proper : ∀ slot ∈ slots, slot.Proper) :
    Reading.Arranged { slots := slots.reverse } (slots.flatMap held) (slots.map .whole) := by
  have wholes : ∀ slots : List Slot, Arrangement.wholes (slots.map .whole) = slots := fun slots => by
    simp [Arrangement.wholes, List.filterMap_map, Placed.whole?]
  have linked : ∀ slots : List Slot,
      Arrangement.Linked (fun slot : Slot => slot.link.isSome = true) true (slots.map .whole) := by
    intro slots
    induction slots with
    | nil => trivial
    | cons slot slots ih => exact ⟨fun _ _ _ => rfl, ih⟩
  refine ⟨?_, by simp [wholes], by simp [Arrangement.looses, Placed.loose?],
    by simp [Arrangement.lefts, Placed.left?], ?_, by simpa [wholes] using proper,
    by simp [Arrangement.looses, Placed.loose?]⟩
  · simp [Arrangement.held, List.flatMap_map, Placed.held]
  · cases slots with
    | nil => trivial
    | cons first rest =>
        refine ⟨fun slot isWhole isLinked => ?_, linked rest⟩
        cases isWhole
        rw [unbroken.1] at isLinked
        cases isLinked

end Slot

namespace Parse

variable {slots : List Slot}

section Sample

/-- An operator of one word that is written at `start`. -/
def writtenAt (name : String) (kind : OperatorKind) (priority : Int) (start : Nat) : Chosen :=
  let operator : Operator := { id := 0, nameParts := [name], kind, priority }
  { written := { parts := [(start, name)], first := operator, others := [] }, operator }

/-- The row of `-x+y`. -/
def sampleRow : List Slot :=
  [{ operand := 0, prefixes := [writtenAt "-" .prefixOp 5 0] },
    { operand := 1, link := some (writtenAt "+" .binary 4 2) }]

def sampleRowStart : ParseState :=
  (Grammar.sampleGrammar []).blankState (Text.ofString "-x+y")

/-- The state in which the names have been read. -/
def sampleRowState : ParseState :=
  let s := sampleRowStart.withForest (sampleRowStart.forest.createToken .name "x" 1).2
  s.withForest (s.forest.createToken .name "y" 3).2

theorem holding_sampleRow : Holding (Grammar.sampleGrammar []) False sampleRowStart sampleRowState
    ([] ++ sampleRow.flatMap Slot.held) 4 := by
  have ready : sampleRowStart.Ready (Grammar.sampleGrammar []) False := ready_blankState _
  have silent : ∀ place ∈ [0, 2], (Grammar.sampleGrammar []).comments.gapEnd
      (Text.ofString "-x+y") place = place ∧
      (Grammar.sampleGrammar []).comments.commentsFrom (Text.ofString "-x+y") place = [] := by
    decide +kernel
  obtain ⟨⟨gapMinus, noneMinus⟩, gapPlus, nonePlus⟩ := by simpa using silent
  have minus : Holding _ False sampleRowStart sampleRowStart [.word 0 "-"] 1 :=
    ready.holding.spell gapMinus (by decide) (by decide +kernel)
      (fun comment member => by cases noneMinus ▸ member)
  have x : Holding _ False sampleRowStart (sampleRowStart.withForest
      (sampleRowStart.forest.createToken .name "x" 1).2) [.word 0 "-", .item 0] 2 :=
    minus.token .name (by decide) (by decide) nofun nofun
  have plus : Holding _ False sampleRowStart _
      [.word 0 "-", .item 0, .word 2 "+"] 3 :=
    x.spell gapPlus (by decide) (by decide +kernel) (fun comment member => by cases nonePlus ▸ member)
  have y : Holding _ False sampleRowStart sampleRowState
      [.word 0 "-", .item 0, .word 2 "+", .item 1] 4 :=
    plus.token .name (by decide) (by decide) nofun nofun
  exact y

end Sample

end Parse

end ExprLang
