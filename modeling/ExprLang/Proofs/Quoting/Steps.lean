import ExprLang.Proofs.Parse.Preserving
import ExprLang.Proofs.Quoting.Constants

/-!
Text constants in a parse. Whatever the parser and its extensions do, a text constant comes from its own
step only, which decodes the characters behind the opening quote, and no later step touches it. So every
constant of a parse is what its characters are decoded to.
-/

namespace ExprLang

variable {α : Type} {escape : TextEscape}

theorem ItemKind.decoded_of_not_constant {kind : ItemKind} (ordinary : kind.isConstant = false) :
    kind.Decoded escape := by
  cases kind <;> trivial

instance : Lasting (Forest.Decoded escape) where
  push decoded _ _ ordinary := decoded.push (ItemKind.decoded_of_not_constant ordinary)
  changeKind decoded harmless := decoded.changeKind fun kind isDecoded => by
    rcases harmless kind with same | ⟨_, ordinary⟩
    · rwa [same]
    · exact ItemKind.decoded_of_not_constant ordinary
  link decoded _ _ _ := decoded.link

namespace Parse

variable {grammar : Grammar} {inner : Inner}

instance {refused : AttachError → Parse Unit} [∀ error, Preserves (Forest.Decoded escape) (refused error)]
    (owner item : Nat) : Preserves (Forest.Decoded escape) (attachOr refused (·.addKeyword owner item)) :=
  preserves_attach fun decoded _ _ => decoded.link

instance (owner item : Nat) : Preserves (Forest.Decoded escape) (addKeyword owner item) :=
  preserves_attach fun decoded _ _ => decoded.link

/-- A text constant at its opening quote is decoded from what stands behind it. -/
theorem decodes_textConstant {s : ParseState} {quote : Char}
    (decoded : s.forest.Decoded grammar.textEscape)
    (here : s.cursor.text[s.cursor.position]? = some quote) :
    Ends (textConstant grammar quote) s (fun _ t => t.forest.Decoded grammar.textEscape)
      fun _ t => t.forest.Decoded grammar.textEscape := by
  apply (ends_textConstant_behind grammar quote).imp
  · rintro _ t ⟨-, rfl⟩
    exact decoded.addLeaf rfl (decoded_constantKind _ here)
  · exact fun _ _ never => never.elim

instance (extension : Extension) (trigger : Trigger) (parts : List CustomPart) :
    Preserves (Forest.Decoded escape) (createCustom extension trigger parts) := by
  unfold createCustom
  refine preserves_bind inferInstance fun forest => preserves_bind inferInstance fun item => ?_
  refine preserves_bind inferInstance fun _ => preserves_bind inferInstance fun _ => ?_
  refine preserves_bind ?_ fun _ => inferInstance
  refine preserves_forM fun part => ?_
  cases part <;> infer_instance

instance (count : Nat) : Preserves (Forest.Decoded escape) (changeForest (·.truncate count)) :=
  ⟨fun _ decoded => ends_ok rfl decoded.truncate⟩

section Custom

variable [inside : ∀ context, Preserves (Forest.Decoded escape) (inner context)]

instance (trigger : Trigger) (start : Nat) (extensions : List Extension) :
    Preserves (Forest.Decoded escape) (tryExtensions grammar inner trigger start extensions) := by
  induction extensions with
  | nil => exact preserves_pure _
  | cons extension rest ih =>
      unfold tryExtensions
      refine preserves_bind inferInstance fun critical => preserves_bind inferInstance fun size => ?_
      refine preserves_bind inferInstance fun outcome => preserves_bind inferInstance fun later => ?_
      cases outcome <;> infer_instance

instance (prefixes keywords : List ItemId) :
    Preserves (Forest.Decoded escape) (custom? grammar inner prefixes keywords) := by
  unfold custom?
  cases keywords.getLast? with
  | none => infer_instance
  | some token =>
      refine preserves_bind inferInstance fun keyword => ?_
      cases keyword <;> infer_instance

/-! Segments -/

instance (owner : ItemId) (modifiers : Modifiers) :
    Preserves (Forest.Decoded escape) (attachModifiers owner modifiers) := by
  unfold attachModifiers
  infer_instance

instance (modifiers : Modifiers) : Preserves (Forest.Decoded escape) (misplaced modifiers) := by
  unfold misplaced
  infer_instance

instance : Preserves (Forest.Decoded escape) (triggeredBehind? grammar inner) := by
  unfold triggeredBehind?
  refine preserves_bind inferInstance fun _ => preserves_bind inferInstance fun keywords => ?_
  cases keywords.getLast? with
  | none => infer_instance
  | some last =>
      refine preserves_bind inferInstance fun keyword => ?_
      cases keyword <;> infer_instance

instance (before : ParseState) : Preserves (Forest.Decoded escape) (rollBack before) :=
  ⟨fun _ decoded => ends_ok rfl decoded.truncate⟩

instance : Preserves (Forest.Decoded escape) (customPostfix? grammar inner) := by
  unfold customPostfix?
  refine preserves_ite inferInstance (preserves_bind inferInstance fun before => ?_)
  refine preserves_bind inferInstance fun found => ?_
  cases found <;> infer_instance

instance (draft : Draft) : Preserves (Forest.Decoded escape) (settlePending draft) := by
  unfold settlePending
  infer_instance

instance (draft : Draft) (item : ItemId) :
    Preserves (Forest.Decoded escape) (modifyOperand draft item) := by
  unfold modifyOperand
  infer_instance

instance (context : Context) (draft : Draft) (item : ItemId) :
    Preserves (Forest.Decoded escape) (afterOperand grammar inner context draft item) := by
  unfold afterOperand
  refine preserves_bind inferInstance fun draft => preserves_bind inferInstance fun _ => ?_
  refine preserves_bind inferInstance fun run => ?_
  dsimp only
  refine preserves_ite inferInstance ?_
  refine preserves_bind inferInstance fun _ => preserves_bind inferInstance fun place => ?_
  refine preserves_bind inferInstance fun text => ?_
  refine preserves_ite inferInstance ?_
  cases grammar.operatorAt? text place true <;> infer_instance

end Custom

section Segment

variable [∀ context, Preserves (Forest.Decoded grammar.textEscape) (inner context)]

/-- The only place where a text constant is parsed, and there is its quote. -/
instance (terms : List Term) :
    Preserves (Forest.Decoded grammar.textEscape) (plainOperand grammar inner terms) :=
  ⟨fun _ decoded => preserved_plainOperand decoded (fun _ here => decodes_textConstant decoded here) terms⟩

instance (draft : Draft) : Preserves (Forest.Decoded grammar.textEscape) (operand grammar inner draft) := by
  unfold operand
  refine preserves_bind inferInstance fun _ => preserves_bind inferInstance fun found => ?_
  cases found <;> infer_instance

instance (context : Context) (draft : Draft) :
    Preserves (Forest.Decoded grammar.textEscape) (pass grammar inner context draft) := by
  unfold pass
  refine preserves_bind inferInstance fun _ => preserves_bind inferInstance fun read => ?_
  obtain ⟨pending, item⟩ := read
  cases item with
  | some item => infer_instance
  | none =>
      refine preserves_bind inferInstance fun read => ?_
      obtain ⟨found, pending⟩ := read
      cases found <;> infer_instance

instance (context : Context) (count : Nat) (draft : Draft) :
    Preserves (Forest.Decoded grammar.textEscape) (passes grammar inner context count draft) := by
  induction count generalizing draft with
  | zero =>
      unfold passes
      infer_instance
  | succ count ih =>
      unfold passes
      refine preserves_bind inferInstance fun read => ?_
      obtain ⟨draft, progress⟩ := read
      cases progress <;> infer_instance

instance (context : Context) :
    Preserves (Forest.Decoded grammar.textEscape) (segmentWith grammar inner context) := by
  unfold segmentWith
  refine preserves_bind inferInstance fun _ => preserves_bind inferInstance fun read => ?_
  obtain ⟨draft, closedByBlock⟩ := read
  refine preserves_bind inferInstance fun draft => preserves_bind inferInstance fun found => ?_
  cases found <;> infer_instance

end Segment

/-- At every depth. -/
theorem decodes_segment (grammar : Grammar) (depth : Nat) :
    ∀ context, Preserves (Forest.Decoded grammar.textEscape) (segment grammar depth context) := by
  induction depth with
  | zero =>
      intro context
      unfold segment
      infer_instance
  | succ depth ih =>
      intro context
      unfold segment
      infer_instance

end Parse

namespace Grammar

theorem decoded_finalState (grammar : Grammar) (text : Text) :
    (grammar.finalState text).forest.Decoded grammar.textEscape := by
  refine holds_finalState (Parse.decodes_segment grammar (text.size + 1)) fun id kind found => ?_
  cases id with
  | zero => exact Option.some.inj found ▸ trivial
  | succ id => cases found

end Grammar

end ExprLang
