import ExprLang.Proofs.Parse.Alarm

/-!
Properties that a parse preserves. A property of forests that neither new items bear on nor links, other
than those of keywords, is preserved by whatever the parser does without attaching keywords. The steps
that attach keywords, make text constants or cut the forest are left to each property; the others are
found to preserve it as they are put together.
-/

namespace ExprLang

variable {ε α β : Type} {holds : Forest → Prop}

def ItemKind.isConstant : ItemKind → Bool
  | .constantText .. => true
  | _ => false

/-- What holds of the forest holds of it behind the step, whether the step gives a value or stops. This is
a class, so that a step that is put together of such steps is found to be one. -/
class Preserves (holds : Forest → Prop) (step : EStateM ε ParseState α) : Prop where
  ends : ∀ s, holds s.forest → Ends step s (fun _ t => holds t.forest) fun _ t => holds t.forest

/-- A change of kind that makes neither a token nor a text constant of anything else. -/
def Harmless (change : ItemKind → ItemKind) : Prop :=
  ∀ kind, change kind = kind ∨ (change kind).isToken = false ∧ (change kind).isConstant = false

/-- The property bears neither on new items, text constants apart, nor on links, those of keywords apart. -/
class Lasting (holds : Forest → Prop) : Prop where
  push : ∀ {forest : Forest} {item : Item}, holds forest → item.parent = none → item.parts = {} →
    item.kind.isConstant = false → holds (forest.push item).2
  changeKind : ∀ {forest : Forest} {id : ItemId} {change : ItemKind → ItemKind}, holds forest →
    Harmless change → holds (forest.modify id fun item => { item with kind := change item.kind })
  link : ∀ {forest : Forest} {owner item : ItemId} {place : Section} {isChild : Bool}, holds forest →
    owner < forest.size → item < forest.size → place ≠ .keywords →
    holds (forest.link owner item place isChild)

/-! Two properties at once -/

instance {other : Forest → Prop} [first : Lasting holds] [second : Lasting other] :
    Lasting (fun forest => holds forest ∧ other forest) where
  push before free bare ordinary :=
    ⟨first.push before.1 free bare ordinary, second.push before.2 free bare ordinary⟩
  changeKind before harmless :=
    ⟨first.changeKind before.1 harmless, second.changeKind before.2 harmless⟩
  link before ownerInside itemInside place :=
    ⟨first.link before.1 ownerInside itemInside place, second.link before.2 ownerInside itemInside place⟩

instance {other : Forest → Prop} {step : EStateM ε ParseState α} [first : Preserves holds step]
    [second : Preserves other step] : Preserves (fun forest => holds forest ∧ other forest) step :=
  ⟨fun s both => (first.ends s both.1).and (second.ends s both.2)⟩

/-! Putting steps together -/

section Rules

variable {step other : EStateM ε ParseState α} {next : α → EStateM ε ParseState β}

instance preserves_pure (value : α) : Preserves holds (pure value : EStateM ε ParseState α) :=
  ⟨fun _ before => ends_pure before⟩

instance preserves_throw (error : ε) : Preserves holds (throw error : EStateM ε ParseState α) :=
  ⟨fun _ before => ends_throw before⟩

theorem preserves_bind (first : Preserves holds step) (rest : ∀ value, Preserves holds (next value)) :
    Preserves holds (step >>= next) where
  ends s before := (first.ends s before).bind (fun value => (rest value).ends) fun _ _ stopped => stopped

instance [first : Preserves holds step] [rest : ∀ value, Preserves holds (next value)] :
    Preserves holds (step >>= next) := preserves_bind first rest

instance preserves_map {f : α → β} [Preserves holds step] : Preserves holds (f <$> step) := by
  rw [map_eq_pure_bind]
  infer_instance

theorem preserves_ite {c : Prop} [Decidable c] (first : Preserves holds step)
    (second : Preserves holds other) : Preserves holds (if c then step else other) := by
  by_cases holds : c
  · rwa [if_pos holds]
  · rwa [if_neg holds]

instance {c : Prop} [Decidable c] [first : Preserves holds step] [second : Preserves holds other] :
    Preserves holds (if c then step else other) := preserves_ite first second

instance preserves_option_forM {value : Option α} {body : α → EStateM ε ParseState Unit}
    [each : ∀ value, Preserves holds (body value)] : Preserves holds (value.forM body) := by
  cases value with
  | none => exact preserves_pure ()
  | some value => exact each value

theorem preserves_forM {list : List α} {body : α → EStateM ε ParseState Unit}
    (each : ∀ value, Preserves holds (body value)) : Preserves holds (list.forM body) := by
  induction list with
  | nil => exact preserves_pure ()
  | cons value rest ih => exact preserves_bind (each value) fun _ => ih

instance {list : List α} {body : α → EStateM ε ParseState Unit}
    [each : ∀ value, Preserves holds (body value)] : Preserves holds (list.forM body) := preserves_forM each

instance preserves_mapM {list : List α} {body : α → EStateM ε ParseState β}
    [∀ value, Preserves holds (body value)] : Preserves holds (list.mapM body) := by
  induction list with
  | nil => exact preserves_pure []
  | cons value rest ih =>
      rw [List.mapM_cons]
      infer_instance

instance preserves_foldlM {list : List α} {body : β → α → EStateM ε ParseState β} {start : β}
    [each : ∀ before value, Preserves holds (body before value)] :
    Preserves holds (list.foldlM body start) := by
  induction list generalizing start with
  | nil => exact preserves_pure start
  | cons value rest ih => exact preserves_bind (each start value) fun _ => ih

/-- A step that leaves the forest alone. -/
theorem preserves_of_same (same : ∀ s, Ends step s (fun _ t => t.forest = s.forest) fun _ t =>
    t.forest = s.forest) : Preserves holds step where
  ends s before := (same s).imp (fun _ _ same => by rwa [same]) fun _ _ same => by rwa [same]

instance preserves_get : Preserves holds (get : EStateM ε ParseState ParseState) :=
  preserves_of_same fun _ => ends_ok rfl rfl

end Rules

namespace Parse

/-! Single steps -/

instance : Preserves holds position := preserves_of_same fun _ => ends_ok rfl rfl

instance : Preserves holds text := preserves_of_same fun _ => ends_ok rfl rfl

instance : Preserves holds current? := preserves_of_same fun _ => ends_ok rfl rfl

instance (start stop : Nat) : Preserves holds (slice start stop) :=
  preserves_of_same fun _ => ends_ok rfl rfl

instance : Preserves holds forest := preserves_of_same fun _ => ends_ok rfl rfl

instance : Preserves holds size := preserves_of_same fun _ => ends_ok rfl rfl

instance : Preserves holds remaining := preserves_of_same fun _ => ends_ok rfl rfl

instance : Preserves holds criticalCount := preserves_of_same fun _ => ends_ok rfl rfl

instance (place : Nat) : Preserves holds (moveTo place) := preserves_of_same fun _ => ends_ok rfl rfl

instance (count : Nat) : Preserves holds (skip count) := preserves_of_same fun _ => ends_ok rfl rfl

instance (fault : Fault) : Preserves holds (addFault fault) := preserves_of_same fun _ => ends_ok rfl rfl

instance (start length : Nat) (cause : Fault.Cause) : Preserves holds (report start length cause) :=
  preserves_of_same fun _ => ends_ok rfl rfl

instance (start length : Nat) (cause : Fault.Cause) :
    Preserves holds (stop start length cause : Parse α) := preserves_of_same fun _ => ends_error rfl rfl

instance (place : Nat) : Preserves holds (stuck place : Parse α) :=
  preserves_of_same fun _ => ends_error rfl rfl

instance : Preserves holds skipGap :=
  preserves_of_same fun _ => ends_skipGap.imp (fun _ _ same => same.1) fun _ _ never => never.elim

theorem preserves_attach {refused : AttachError → Parse Unit} {owner item : Nat} {place : Section}
    {isChild : Bool} [stops : ∀ error, Preserves holds (refused error)]
    (linked : ∀ {forest : Forest}, holds forest → owner < forest.size → item < forest.size →
      holds (forest.link owner item place isChild)) :
    Preserves holds (attachOr refused (·.attach owner item place isChild)) := by
  constructor
  intro s before
  unfold attachOr
  simp only [ends_forest_bind]
  cases attached : s.forest.attach owner item place isChild with
  | error error => exact (stops error).ends s before
  | ok next =>
      obtain ⟨rfl, ownerInside, itemInside⟩ := Forest.attach_ok attached
      exact ends_ok rfl (linked before ownerInside itemInside)

section Making

variable [lasting : Lasting holds]

instance (kind : TokenKind) (word : String) (start : Nat) : Preserves holds (createToken kind word start) :=
  ⟨fun _ before => ends_ok rfl (lasting.push before rfl rfl rfl)⟩

theorem preserves_create {kind : ItemKind} {start : Nat} (ordinary : kind.isConstant = false) :
    Preserves holds (create kind start) :=
  ⟨fun _ before => ends_ok rfl (lasting.push before rfl rfl ordinary)⟩

theorem preserves_changeKind (item : Nat) {change : ItemKind → ItemKind} (harmless : Harmless change) :
    Preserves holds (changeKind item change) :=
  ⟨fun _ before => ends_ok rfl (lasting.changeKind before harmless)⟩

theorem preserves_setKind {item : Nat} {kind : ItemKind}
    (composite : kind.isToken = false ∧ kind.isConstant = false) :
    Preserves holds (changeForest (·.setKind item kind)) :=
  preserves_changeKind item fun _ => Or.inr composite

theorem preserves_attachOr {refused : AttachError → Parse Unit} {owner item : Nat} {place : Section}
    {isChild : Bool} [∀ error, Preserves holds (refused error)] (other : place ≠ .keywords) :
    Preserves holds (attachOr refused (·.attach owner item place isChild)) :=
  preserves_attach fun before ownerInside itemInside => lasting.link before ownerInside itemInside other

instance {refused : AttachError → Parse Unit} [∀ error, Preserves holds (refused error)]
    (owner item : Nat) : Preserves holds (attachOr refused (·.addRegular owner item)) :=
  preserves_attachOr nofun

instance {refused : AttachError → Parse Unit} [∀ error, Preserves holds (refused error)]
    (owner item : Nat) : Preserves holds (attachOr refused (·.addChild owner item)) :=
  preserves_attachOr nofun

instance (owner item : Nat) : Preserves holds (addPrefix owner item) := preserves_attachOr nofun

instance (owner item : Nat) : Preserves holds (addPostfix owner item) := preserves_attachOr nofun

instance (owner item : Nat) : Preserves holds (addRegular owner item) := preserves_attachOr nofun

instance (owner item : Nat) : Preserves holds (addChild owner item) := preserves_attachOr nofun

theorem preserves_createLeaf {kind : ItemKind} {token : TokenKind} {word : String} {start : Nat}
    (ordinary : kind.isConstant = false) : Preserves holds (createLeaf kind token word start) := by
  have := @preserves_create holds _ kind start ordinary
  unfold createLeaf
  infer_instance

section Create

variable (start : Nat)

instance (name : String) (type : NumericTypeId) (kind : NumericKind) (token : TokenKind) (word : String) :
    Preserves holds (createLeaf (.numeric name type kind) token word start) :=
  preserves_createLeaf rfl

instance (name : String) (token : TokenKind) (word : String) :
    Preserves holds (createLeaf (.literal name) token word start) :=
  preserves_createLeaf rfl

instance (kind : BraceKind) (name : Option ItemId) (opening : ItemId) (closing : Option ItemId)
    (parameters : List (Option ItemId)) :
    Preserves holds (create (.braces kind name opening closing parameters) start) :=
  preserves_create rfl

instance (first : ItemId) (stop : Option ItemId) (statements : List ItemId) :
    Preserves holds (create (.codeBlock first stop statements) start) := preserves_create rfl

instance (id : Nat) (kind : OperatorKind) (name : String) :
    Preserves holds (create (.operatorInfo id kind name) start) := preserves_create rfl

instance (id : Nat) (kind : OperatorKind) (priority : Int) (info operand : ItemId)
    (right : Option ItemId) :
    Preserves holds (create (.operator id kind priority info operand right) start) :=
  preserves_create rfl

instance (category : CustomCategory) (trigger : KeywordId) (name accepts : String) :
    Preserves holds (create (.custom category trigger name accepts) start) :=
  preserves_create rfl

instance : Preserves holds (create .series start) := preserves_create rfl

end Create

/-! Operands -/

variable {grammar : Grammar} {inner : Inner}

instance (written : NumericMatch) : Preserves holds (number written) := by
  unfold number
  infer_instance

instance : Preserves holds (name? grammar) := by
  unfold name?
  infer_instance

/-! Enclosed lists -/

theorem harmless_noteStatement (statement : ItemId) : Harmless (noteStatement statement) := by
  intro kind
  cases kind <;> first | exact Or.inl rfl | exact Or.inr ⟨rfl, rfl⟩

theorem harmless_noteSeparator (separator : ItemId) : Harmless (noteSeparator separator) := by
  intro kind
  cases kind <;> first | exact Or.inl rfl | exact Or.inr ⟨rfl, rfl⟩

theorem harmless_noteBlockEnd (stop : ItemId) : Harmless (noteBlockEnd stop) := by
  intro kind
  cases kind <;> first | exact Or.inl rfl | exact Or.inr ⟨rfl, rfl⟩

section Enclosed

variable [∀ context, Preserves holds (inner context)]

@[instance]
theorem preserves_parameters (item : ItemId) (kind : BraceKind) (passes : Nat)
    (before : List (Option ItemId)) (seenComma : Bool) :
    Preserves holds (parameters inner item kind passes before seenComma) := by
  induction passes generalizing before seenComma with
  | zero =>
      unfold parameters
      infer_instance
  | succ passes ih =>
      unfold parameters
      refine preserves_bind inferInstance fun segment => preserves_bind inferInstance fun _ => ?_
      refine preserves_bind inferInstance fun _ => preserves_bind inferInstance fun place => ?_
      refine preserves_bind inferInstance fun next => ?_
      cases next <;> infer_instance

@[instance]
theorem preserves_braces (name : Option ItemId) : Preserves holds (braces inner name) := by
  unfold braces
  refine preserves_bind inferInstance fun start => preserves_bind inferInstance fun c => ?_
  split
  · infer_instance
  · refine preserves_bind inferInstance fun opening => preserves_bind inferInstance fun item => ?_
    refine preserves_bind inferInstance fun _ => preserves_bind inferInstance fun _ => ?_
    refine preserves_bind inferInstance fun _ => preserves_bind inferInstance fun _ => ?_
    refine preserves_bind inferInstance fun read => ?_
    exact preserves_bind (preserves_setKind ⟨rfl, rfl⟩) fun _ => inferInstance

instance : Preserves holds (literal? grammar inner) := by
  unfold literal?
  refine preserves_bind inferInstance fun name => ?_
  cases name <;> infer_instance

instance (owner item : ItemId) : Preserves holds (addStatement owner item) := by
  have := @preserves_changeKind holds _ owner _ (harmless_noteStatement item)
  unfold addStatement
  infer_instance

instance (owner : ItemId) (place : Nat) : Preserves holds (addSeparator owner place) := by
  have := fun token => @preserves_changeKind holds _ owner _ (harmless_noteSeparator token)
  unfold addSeparator
  infer_instance

instance (place length : Nat) : Preserves holds (unexpected place length) := by
  unfold unexpected
  infer_instance

@[instance]
theorem preserves_blockStatements (block : ItemId) (markers : MarkerPair) (blockStart passes : Nat) :
    Preserves holds (blockStatements grammar inner block markers blockStart passes) := by
  have := fun token => @preserves_changeKind holds _ block _ (harmless_noteBlockEnd token)
  induction passes with
  | zero =>
      unfold blockStatements
      infer_instance
  | succ passes ih =>
      unfold blockStatements
      refine preserves_bind inferInstance fun start => preserves_bind inferInstance fun segment => ?_
      refine preserves_bind inferInstance fun _ => preserves_bind inferInstance fun _ => ?_
      refine preserves_bind inferInstance fun place => preserves_bind inferInstance fun next => ?_
      cases next <;> infer_instance

instance : Preserves holds (codeBlock grammar inner) := by
  unfold codeBlock
  refine preserves_bind inferInstance fun start => ?_
  cases grammar.codeBlock <;> infer_instance

instance (root start : Nat) (closedByBlock : Bool) :
    Preserves holds (afterStatement grammar root start closedByBlock) := by
  unfold afterStatement
  refine preserves_bind inferInstance fun _ => preserves_bind inferInstance fun place => ?_
  refine preserves_bind inferInstance fun next => ?_
  cases next <;> infer_instance

@[instance]
theorem preserves_rootStatements (root passes : Nat) :
    Preserves holds (rootStatements grammar inner root passes) := by
  induction passes with
  | zero =>
      unfold rootStatements
      infer_instance
  | succ passes ih =>
      unfold rootStatements
      infer_instance

end Enclosed

/-! Resolving -/

instance (chosen : Chosen) : Preserves holds (createInfo chosen) := by
  unfold createInfo
  infer_instance

instance (chosen : Chosen) (operand : ItemId) (right : Option ItemId) :
    Preserves holds (createOperator chosen operand right) := by
  unfold createOperator
  refine preserves_bind inferInstance fun info => preserves_bind inferInstance fun item => ?_
  cases chosen.operator.kind <;> infer_instance

instance (slot : Slot) : Preserves holds (applyUnary slot) := by
  unfold applyUnary
  infer_instance

instance (chosen : Chosen) (left right : ItemId) : Preserves holds (combine chosen left right) := by
  unfold combine
  infer_instance

@[instance]
theorem preserves_combineAt (level : Int) (left : ItemId) (links : List (Chosen × ItemId)) :
    Preserves holds (Run.combineAt combine level left links) := by
  induction links generalizing left with
  | nil => exact preserves_pure _
  | cons link rest ih =>
      unfold Run.combineAt
      infer_instance

@[instance]
theorem preserves_foldAt (priorities : List Int) (run : Run ItemId) :
    Preserves holds (Run.foldAt combine priorities run) := by
  induction priorities generalizing run with
  | nil => exact preserves_pure _
  | cons priority rest ih =>
      unfold Run.foldAt
      infer_instance

instance (run : Run ItemId) : Preserves holds (Run.fold combine run) := by
  unfold Run.fold
  infer_instance

instance (slots : List Slot) : Preserves holds (foldSlots slots) := by
  unfold foldSlots
  refine preserves_bind inferInstance fun nodes => ?_
  cases nodes <;> infer_instance

instance (items : List ItemId) : Preserves holds (createSeries items) := by
  unfold createSeries
  infer_instance

@[instance]
theorem preserves_resolve (terms : List Term) : Preserves holds (resolve terms) := by
  unfold resolve
  refine preserves_bind inferInstance fun forest => preserves_bind inferInstance fun _ => ?_
  refine preserves_ite inferInstance (preserves_bind inferInstance fun nodes => ?_)
  split <;> infer_instance

end Making

end Parse

namespace Script

variable {grammar : Grammar} {inner : Inner} {body : Parse α}

instance [preserves : Preserves holds body] : Preserves holds (attempt body) where
  ends s before := by
    have ends := preserves.ends s before
    unfold Ends attempt at *
    cases run : body s <;> rw [run] at ends <;> exact ends

instance [Preserves holds body] : Preserves holds (run body) := by
  unfold run
  refine preserves_bind inferInstance fun outcome => ?_
  cases outcome <;> infer_instance

instance (symbol : String) : Preserves holds (isHere grammar symbol) := by
  unfold isHere
  infer_instance

instance [Lasting holds] (length : Nat) : Preserves holds (token length) := by
  unfold token
  infer_instance

instance (extension : Extension) (trigger : Trigger) : Preserves holds (observe extension trigger) :=
  preserves_of_same fun _ => ends_ok rfl rfl

instance [Lasting holds] [∀ context, Preserves holds (inner context)] (piece : Extension.Piece) :
    Preserves holds (piece? grammar inner piece) := by
  cases piece <;> unfold piece? <;> infer_instance

variable (extension : Extension) (trigger : Trigger)

mutual

theorem preserves_step [Lasting holds] (inside : ∀ context, Preserves holds (inner context))
    (parts : List CustomPart) : ∀ next, Preserves holds (step grammar inner extension trigger parts next)
  | .log | .skip _ | .skipSpaces | .expect _ | .token _ | .fail _ | .decline | .again | .swap | .trigger
  | .child _ | .unknown _ => by
      unfold step
      infer_instance
  | .branch symbol yes no => by
      have ifHere := preserves_steps inside parts yes
      have ifNot := preserves_steps inside parts no
      unfold step
      infer_instance
  | .word => by
      unfold step
      refine preserves_bind inferInstance fun s => ?_
      dsimp only
      split <;> infer_instance
  | .parse piece optional keep onStop => by
      unfold step
      refine preserves_bind inferInstance fun outcome => ?_
      rcases outcome with stopped | (_ | item)
      · cases onStop <;> infer_instance
      · infer_instance
      · cases keep <;> infer_instance
  | .report offset length code message critical => by
      unfold step
      infer_instance

theorem preserves_steps [Lasting holds] (inside : ∀ context, Preserves holds (inner context))
    (parts : List CustomPart) : ∀ script, Preserves holds (steps grammar inner extension trigger parts script)
  | [] => preserves_pure parts
  | first :: rest => by
      have := preserves_step inside parts first
      have := fun parts => preserves_steps inside parts rest
      unfold steps
      infer_instance

end

instance [Lasting holds] [inside : ∀ context, Preserves holds (inner context)] (parts : List CustomPart)
    (script : List Extension.Step) : Preserves holds (steps grammar inner extension trigger parts script) :=
  preserves_steps extension trigger inside parts script

end Script

namespace Parse

variable {grammar : Grammar} {inner : Inner}

instance {script : Script (List CustomPart)} [preserves : Preserves holds script] :
    Preserves holds (runScript script) where
  ends s before := by
    apply (ends_runScript (preserves.ends s before)).imp
    · intro outcome t after
      cases outcome <;> exact after
    · exact fun _ _ never => never.elim

@[instance]
theorem preserves_keywordId (token : ItemId) : Preserves holds (keywordId? token) := by
  unfold keywordId?
  refine preserves_bind inferInstance fun forest => ?_
  split <;> infer_instance

@[instance]
theorem preserves_placeCustom (item : ItemId) : Preserves holds (placeCustom grammar item) := by
  unfold placeCustom
  refine preserves_bind inferInstance fun forest => ?_
  dsimp only
  split <;> infer_instance

section Segments

variable [Lasting holds] [∀ context, Preserves holds (inner context)]

/-! Segments -/

@[instance]
theorem preserves_keywordRun (reportRepeats : Bool) (passes : Nat) (keywords : List ItemId) :
    Preserves holds (keywordRun grammar reportRepeats passes keywords) := by
  induction passes generalizing keywords with
  | zero => exact preserves_pure _
  | succ passes ih =>
      unfold keywordRun
      refine preserves_bind inferInstance fun _ => preserves_bind inferInstance fun start => ?_
      refine preserves_bind inferInstance fun text => ?_
      cases grammar.keywordAt? text start <;> infer_instance

instance : Preserves holds (operandFollows grammar) := by
  unfold operandFollows
  infer_instance

@[instance]
theorem preserves_modifiers (passes : Nat) (pending : Modifiers) :
    Preserves holds (modifiers grammar inner passes pending) := by
  induction passes generalizing pending with
  | zero => exact preserves_pure _
  | succ passes ih =>
      unfold modifiers
      infer_instance

instance (target postfixed : ItemId) : Preserves holds (attachPostfix target postfixed) := by
  unfold attachPostfix
  infer_instance

@[instance]
theorem preserves_postfixes [Preserves holds (customPostfix? grammar inner)] (context : Context)
    (target : ItemId) (passes : Nat) : Preserves holds (postfixes grammar inner context target passes) := by
  induction passes with
  | zero => exact preserves_pure _
  | succ passes ih =>
      unfold postfixes
      refine preserves_bind inferInstance fun _ => preserves_bind inferInstance fun text => ?_
      refine preserves_bind inferInstance fun place => ?_
      refine preserves_ite inferInstance (preserves_bind inferInstance fun found => ?_)
      cases found <;> infer_instance

/-- Of the plain operands only a text constant needs more, and that begins with its quote. -/
theorem preserved_plainOperand {s : ParseState} (before : holds s.forest)
    (constant : ∀ quote, s.cursor.text[s.cursor.position]? = some quote →
      Ends (textConstant grammar quote) s (fun _ t => holds t.forest) fun _ t => holds t.forest)
    (terms : List Term) :
    Ends (plainOperand grammar inner terms) s (fun _ t => holds t.forest) fun _ t => holds t.forest := by
  unfold plainOperand
  simp only [ends_position_bind, ends_text_bind]
  by_cases terminated : grammar.isTerminatorAt s.cursor.text s.cursor.position = true
  · rw [if_pos terminated]
    exact ends_pure before
  · rw [if_neg terminated]
    cases here : s.cursor.text[s.cursor.position]? with
    | none => exact ends_pure before
    | some c =>
        dsimp only
        by_cases quoted : grammar.quotes.contains c = true
        · rw [if_pos quoted]
          exact (constant c here).bind (fun _ _ after => ends_pure after) fun _ _ after => after
        · rw [if_neg quoted]
          refine @Preserves.ends _ _ holds _ ?_ s before
          cases grammar.numberAt? s.cursor.text s.cursor.position with
          | some written => infer_instance
          | none =>
              refine preserves_ite inferInstance (preserves_ite inferInstance ?_)
              cases grammar.operatorAt? s.cursor.text s.cursor.position (isAfterOperand terms) with
              | some written => infer_instance
              | none =>
                  refine preserves_bind inferInstance fun found => ?_
                  cases found <;> infer_instance

end Segments

end Parse

namespace Grammar

/-- What every segment preserves holds at the end if it holds of the root alone. -/
theorem holds_finalState [Lasting holds] {grammar : Grammar} {text : Text}
    (segments : ∀ context, Preserves holds (Parse.segment grammar (text.size + 1) context))
    (start : holds (grammar.initialState text).forest) : holds (grammar.finalState text).forest := by
  have preserves : Preserves holds (Parse.rootStatements grammar
      (Parse.segment grammar (text.size + 1)) 0 (text.size + 1)) := inferInstance
  have ends := preserves.ends _ start
  unfold finalState
  dsimp only
  unfold Ends at ends
  split <;> rename_i run <;> rwa [run] at ends

end Grammar

end ExprLang
