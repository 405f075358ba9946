import ExprLang.Parse.Resolve
import ExprLang.Proofs.Order
import ExprLang.Proofs.Parse.Arrangement
import ExprLang.Proofs.Parse.Gripping

/-!
Putting operators together with their operands. An operator always stands next to what it takes, so
the row gets shorter and stays in text order until one item is left of a run.
-/

namespace ExprLang

open Held (item hollow word ids)

namespace ParseState

/-- Items are made and attached to new ones; nothing else happens. -/
structure Steady (s t : ParseState) : Prop where
  cursor : t.cursor = s.cursor
  faults : t.faults = s.faults
  size : s.forest.size ≤ t.forest.size
  parts : ∀ id < s.forest.size, t.forest.parts id = s.forest.parts id
  faces : ∀ id < s.forest.size, t.forest.face? id = s.forest.face? id

variable {s t u : ParseState}

namespace Steady

theorem refl (s : ParseState) : Steady s s :=
  ⟨rfl, rfl, Nat.le_refl _, fun _ _ => rfl, fun _ _ => rfl⟩

theorem trans (first : Steady s t) (second : Steady t u) : Steady s u where
  cursor := second.cursor.trans first.cursor
  faults := second.faults.trans first.faults
  size := Nat.le_trans first.size second.size
  parts id inside :=
    (second.parts id (Nat.lt_of_lt_of_le inside first.size)).trans (first.parts id inside)
  faces id inside :=
    (second.faces id (Nat.lt_of_lt_of_le inside first.size)).trans (first.faces id inside)

theorem push (steady : Steady s t) {new : Item} (bare : new.parts = {}) :
    Steady s (t.withForest (t.forest.push new).2) where
  cursor := steady.cursor
  faults := steady.faults
  size := by
    have size := steady.size
    simp only [withForest, Forest.size_push]
    omega
  parts id inside := (Forest.parts_push_old bare).trans (steady.parts id inside)
  faces id inside :=
    (Forest.face_push_old (Nat.lt_of_lt_of_le inside steady.size)).trans (steady.faces id inside)

theorem create (s : ParseState) {kind : ItemKind} (complex : kind.isToken = false) (start : Nat) :
    Steady s (s.withForest (s.forest.create kind start).2) := by
  rw [Forest.create_complex complex]
  exact (refl s).push rfl

theorem link (steady : Steady s t) {owner part : Nat} {place : Section} {isChild : Bool}
    (new : s.forest.size ≤ owner) :
    Steady s (t.withForest (t.forest.link owner part place isChild)) where
  cursor := steady.cursor
  faults := steady.faults
  size := by simpa only [withForest, Forest.size_link] using steady.size
  parts id inside := by
    have other : id ≠ owner := by omega
    exact (Forest.parts_link_other other).trans (steady.parts id inside)
  faces id inside := by
    have same : (t.forest.link owner part place isChild).face? id = t.forest.face? id :=
      Forest.face_link
    exact same.trans (steady.faces id inside)

end Steady

end ParseState

open Parse ParseState

namespace Parse

/-- What an operator and its operands become: a new item in their place. -/
structure Combined (holds : ParseState → List Held → Prop) (s t : ParseState) (row : List Held)
    (node : Nat) : Prop where
  holding : holds t row
  bare : t.forest.Bare node
  new : s.forest.size ≤ node
  steady : Steady s t

/-- What a node has become: it is the same, and nothing was done, or it is new. -/
def Grown (s : ParseState) (node : Nat) (t : ParseState) (last : Nat) : Prop :=
  last = node ∧ t = s ∨ s.forest.size ≤ last ∧ t.forest.Bare last

/-- Nodes with operators between them, as they stand. -/
def heldRun (run : Run ItemId) : List Held :=
  item run.first :: run.links.flatMap fun link => link.1.held ++ [item link.2]

end Parse

namespace Grip

variable {floor : Nat} {holds : ParseState → List Held → Prop} {s t : ParseState}
  {left right : List Held} (grip : Grip floor holds)

include grip

/-- An owner takes a row of items that stands behind it. -/
theorem ends_attachAll (left right : List Held) (place : Section) (isChild : Bool) {owner : Nat}
    {held : Held} {ids : List Nat}
    (holding : holds t (left ++ held :: ids.map item ++ right))
    (isOwner : held.id? = some owner) (isOpen : t.forest.Open place owner)
    (regular : isChild = true → place = .regular) (above : floor ≤ owner)
    (new : s.forest.size ≤ owner) (steady : Steady s t) :
    Ends (ids.forM fun part => attach (·.attach owner part place isChild)) t
      (fun _ u => ∃ later : Held, (later = item owner ∨ later = held ∧ ids = []) ∧
        holds u (left ++ later :: right) ∧ u.forest.Open place owner ∧
        Steady s u ∧ ∀ other, other ≠ place →
          (u.forest.parts owner).get other = (t.forest.parts owner).get other)
      (fun _ _ => False) := by
  induction ids generalizing t held with
  | nil =>
      exact ends_pure ⟨held, Or.inr ⟨rfl, rfl⟩, by simpa using holding, isOpen, steady, fun _ _ => rfl⟩
  | cons part rest ih =>
      have inside : owner < t.forest.size := by
        obtain ⟨found, here, _⟩ := isOpen.plain
        exact Forest.get_lt_size here
      rw [List.forM]
      have attached := grip.ends_behind left (rest.map item ++ right) isChild above (by simpa using holding)
        isOwner isOpen regular
      refine attached.bind ?_ fun _ _ never => never
      rintro _ u ⟨rfl, different, holding⟩
      refine (ih (by simpa using holding) rfl (isOpen.link different) (steady.link new)).imp ?_
        fun _ _ never => never
      rintro _ v ⟨later, isLater, holding, isOpen, steady, same⟩
      refine ⟨later, Or.inl ?_, holding, isOpen, steady, fun other notPlace => ?_⟩
      · rcases isLater with isItem | ⟨isItem, _⟩ <;> exact isItem
      · rw [same other notPlace]
        exact Forest.get_link_of_ne _ _ inside notPlace

/-! Operators -/

section Words

variable {held : Held} {info start : Nat} {text : String}

/-- One more word of an operator gets its token. -/
theorem ends_addWord (left right : List Held)
    (holding : holds t (left ++ held :: word start text :: right))
    (isOwner : held.id? = some info) (bare : t.forest.Bare info) (above : floor ≤ info)
    (new : s.forest.size ≤ info) (steady : Steady s t) :
    Ends (createToken .operatorNamePart text start >>= addRegular info) t
      (fun _ u => holds u (left ++ item info :: right) ∧ u.forest.Bare info ∧
        (u.forest.parts info).regular ≠ [] ∧ Steady s u ∧
        u.forest.start info = if (t.forest.parts info).regular = [] then start else t.forest.start info)
      (fun _ _ => False) := by
  rw [ends_createToken_bind]
  have linked := grip.linked holding
  have inside : info < t.forest.size := by
    obtain ⟨found, here, _⟩ := bare.plain
    exact Forest.get_lt_size here
  have both : holds
      (t.withForest (t.forest.createToken .operatorNamePart text start).2)
      (left ++ [held, item t.forest.size] ++ right) := by
    have named : holds t ((left ++ [held]) ++ word start text :: right) := by
      simpa using holding
    simpa using grip.named (left ++ [held]) right named
  have still : (t.forest.createToken .operatorNamePart text start).2.Bare info :=
    bare.of_get (Forest.get_push_old _ inside)
  have parts : (t.forest.createToken .operatorNamePart text start).2.parts info = t.forest.parts info :=
    Forest.parts_push_old rfl
  have starts : (t.forest.createToken .operatorNamePart text start).2.start info = t.forest.start info :=
    (Forest.spans_push_old linked rfl rfl inside).1
  have upTo : (t.forest.parts info).upTo .regular = (t.forest.parts info).regular := by
    simp [Parts.upTo, bare.noPrefixes, bare.noKeywords]
  have attachable := grip.attachable_behind both isOwner still.toOpen
  have attached := grip.ends_behind left right false above both isOwner still.toOpen (fun _ => rfl)
  refine attached.imp ?_ fun _ _ never => never
  rintro _ u ⟨rfl, different, holding⟩
  refine ⟨holding, still.link _ _ different, ?_, (steady.push rfl).link new, ?_⟩
  · have owned : ((t.forest.createToken .operatorNamePart text start).2.link info t.forest.size .regular
        false).parts info = _ :=
      Forest.parts_link_owner (by rw [Forest.createToken, Forest.size_push]; omega)
    simp only [withForest, owned]
    simp [Parts.push]
  · by_cases first : (t.forest.parts info).regular = []
    · rw [if_pos first]
      refine (Forest.start_link_first (grip.linked both) attachable (fun _ => rfl) ?_).trans ?_
      · simp only [withForest, parts, upTo, first]
      · exact (Forest.span_createToken _ text start linked).1
    · rw [if_neg first]
      refine (Forest.start_link_later (grip.linked both) attachable (fun _ => rfl) ?_).trans starts
      simp only [withForest, parts, upTo]
      exact first

/-- The words of an operator get their tokens one by one. -/
theorem ends_addWords (left right : List Held) {words : List (Nat × String)}
    (holding : holds t
      (left ++ item info :: (words.map fun part => word part.1 part.2) ++ right))
    (bare : t.forest.Bare info) (begun : (t.forest.parts info).regular ≠ []) (above : floor ≤ info)
    (new : s.forest.size ≤ info) (steady : Steady s t) :
    Ends (words.forM fun (start, text) => do
        addRegular info (← createToken .operatorNamePart text start)) t
      (fun _ u => holds u (left ++ item info :: right) ∧ u.forest.Bare info ∧
        Steady s u ∧ u.forest.start info = t.forest.start info) (fun _ _ => False) := by
  induction words generalizing t with
  | nil =>
      refine ends_pure ⟨by simpa using holding, bare, steady, rfl⟩
  | cons first rest ih =>
      obtain ⟨start, text⟩ := first
      rw [List.forM]
      refine (grip.ends_addWord left ((rest.map fun part => word part.1 part.2) ++ right)
        (by simpa using holding) rfl bare above new steady).bind ?_ fun _ _ never => never
      rintro _ u ⟨holding, bare, filled, steady, starts⟩
      rw [if_neg begun] at starts
      refine (ih (by simpa using holding) bare filled steady).imp ?_ fun _ _ never => never
      rintro _ v ⟨holding, bare, steady, same⟩
      exact ⟨holding, bare, steady, same.trans starts⟩

end Words

theorem ends_createInfo (left right : List Held) {chosen : Chosen} (filled : chosen.written.parts ≠ [])
    (holding : holds s (left ++ chosen.held ++ right)) :
    Ends (createInfo chosen) s
      (fun info t => holds t (left ++ item info :: right) ∧
        t.forest.start info = chosen.written.start ∧ Steady s t) (fun _ _ => False) := by
  obtain ⟨⟨start, text⟩, rest, parts⟩ := List.exists_cons_of_ne_nil filled
  have begins : chosen.written.start = start := by simp [OperatorMatch.start, parts]
  have words : chosen.held = word start text :: rest.map fun part => word part.1 part.2 := by
    simp [Chosen.held, OperatorMatch.held, parts]
  unfold createInfo
  rw [begins, parts]
  simp only [ends_create_bind, List.forM]
  rw [words, List.append_assoc] at holding
  have plain : (ItemKind.operatorInfo chosen.operator.id chosen.operator.kind
    chosen.operator.name).isPlain = true := rfl
  have hollow := grip.hollowed left ((rest.map fun part => word part.1 part.2) ++ right) plain
    (by simpa using holding)
  have bare : (s.forest.create (.operatorInfo chosen.operator.id chosen.operator.kind
      chosen.operator.name) start).2.Bare s.forest.size := s.forest.bare_of_create rfl start
  have none : ((s.forest.create (.operatorInfo chosen.operator.id chosen.operator.kind
      chosen.operator.name) start).2.parts s.forest.size).regular = [] := by
    rw [show (s.forest.create (.operatorInfo chosen.operator.id chosen.operator.kind
      chosen.operator.name) start).2.parts s.forest.size = {} from Forest.parts_push_new]
  have steady : Steady s (s.withForest (s.forest.create (.operatorInfo chosen.operator.id
      chosen.operator.kind chosen.operator.name) start).2) := (Steady.refl s).push rfl
  rw [bind_assoc]
  have above := grip.room holding
  refine (grip.ends_addWord (s := s) left ((rest.map fun part => word part.1 part.2) ++ right)
    (by simpa [Held.start] using hollow) rfl bare above (Nat.le_refl _) steady).bind ?_ fun _ _ never => never
  rintro _ u ⟨holding, bare, begun, steady, starts⟩
  have starts : u.forest.start s.forest.size = start := starts.trans (if_pos none)
  refine (grip.ends_addWords left right (by simpa using holding) bare begun above (Nat.le_refl _)
    steady).bind ?_ fun _ _ never => never
  rintro _ v ⟨holding, _, steady, same⟩
  exact ends_pure ⟨holding, same.trans starts, steady⟩

section Operator

variable {chosen : Chosen} {operand : Nat}

theorem ends_prefixOperator (left right : List Held) (isPrefix : chosen.Is .prefixOp)
    (holding : holds s (left ++ chosen.held ++ item operand :: right)) :
    Ends (createOperator chosen operand none) s
      (fun node t => Combined holds s t (left ++ item node :: right) node)
      (fun _ _ => False) := by
  unfold createOperator
  refine (grip.ends_createInfo left _ isPrefix.filled holding).bind ?_ fun _ _ never => never
  rintro info t ⟨holding, starts, steady⟩
  simp only [ends_create_bind, isPrefix.kind]
  have plain : (ItemKind.operator chosen.operator.id .prefixOp chosen.operator.priority info operand
    none).isPlain = true := rfl
  have above := grip.room holding
  have between := grip.hollow_before left _ plain holding starts
  have bare := t.forest.bare_of_create plain chosen.written.start
  have first := grip.ends_behind left (item operand :: right) false above (by simpa using between) rfl
    bare.toOpen (fun _ => rfl)
  refine first.bind ?_ fun _ _ never => never
  rintro _ u ⟨rfl, different, holding⟩
  have still := bare.link info false different
  have second := grip.ends_behind left right true above (by simpa using holding) rfl still.toOpen
    (fun _ => rfl)
  refine second.bind ?_ fun _ _ never => never
  rintro _ v ⟨rfl, different, holding⟩
  exact ends_pure ⟨holding, still.link _ _ different, steady.size,
    ((steady.push rfl).link steady.size).link steady.size⟩

/-- A new item takes the operand in front of it and the operator behind it. -/
theorem ends_behindOperand {α : Type} {kind : ItemKind} {info start : Nat} {next : Parse α}
    {ok : α → ParseState → Prop} {stopped : Stopped → ParseState → Prop} (plain : kind.isPlain = true)
    (holding : holds t (left ++ item operand :: item info :: right))
    (starts : t.forest.start info = start) (steady : Steady s t)
    (rest : ∀ u, Combined holds s u (left ++ item t.forest.size :: right) t.forest.size →
      Ends next u ok stopped) :
    Ends (do addChild t.forest.size operand; addRegular t.forest.size info; next)
      (t.withForest (t.forest.create kind start).2) ok stopped := by
  have above := grip.room holding
  have between := grip.hollow_before (left ++ [item operand]) right plain
    (by simpa using holding) starts
  have bare := t.forest.bare_of_create plain start
  have first := grip.ends_front left (item info :: right) .regular true above
    (by simpa using between) (fun _ => rfl)
  refine first.bind ?_ fun _ _ never => never.elim
  rintro _ u ⟨rfl, different, holding⟩
  have still := bare.link operand true different
  have second := grip.ends_behind left right false above (by simpa using holding) rfl still.toOpen
    (fun _ => rfl)
  refine second.bind ?_ fun _ _ never => never.elim
  rintro _ v ⟨rfl, different, holding⟩
  have pushed : Steady s (t.withForest (t.forest.create kind start).2) := by
    rw [Forest.create_complex (Forest.isToken_of_isPlain plain)]
    exact steady.push rfl
  exact rest _ ⟨holding, still.link _ _ different, steady.size, (pushed.link steady.size).link steady.size⟩

theorem ends_postfixOperator (left right : List Held) (isPostfix : chosen.Is .postfixOp)
    (holding : holds s (left ++ item operand :: chosen.held ++ right)) :
    Ends (createOperator chosen operand none) s
      (fun node t => Combined holds s t (left ++ item node :: right) node)
      (fun _ _ => False) := by
  unfold createOperator
  refine (grip.ends_createInfo (left ++ [item operand]) right isPostfix.filled
    (by simpa using holding)).bind ?_ fun _ _ never => never
  rintro info t ⟨holding, starts, steady⟩
  simp only [ends_create_bind, isPostfix.kind]
  refine grip.ends_behindOperand rfl (by simpa using holding) starts steady fun u combined => ?_
  exact ends_pure combined

theorem ends_combine (left right : List Held) {second : Nat} (isBinary : chosen.Is .binary)
    (holding : holds s
      (left ++ item operand :: chosen.held ++ item second :: right)) :
    Ends (combine chosen operand second) s
      (fun node t => Combined holds s t (left ++ item node :: right) node)
      (fun _ _ => False) := by
  unfold combine createOperator
  refine (grip.ends_createInfo (left ++ [item operand]) (item second :: right) isBinary.filled
    (by simpa using holding)).bind ?_ fun _ _ never => never
  rintro info t ⟨holding, starts, steady⟩
  simp only [ends_create_bind, isBinary.kind]
  refine grip.ends_behindOperand rfl (by simpa using holding) starts steady fun u combined => ?_
  have above := grip.room holding
  have third := grip.ends_behind left right true above (by simpa using combined.holding) rfl
    combined.bare.toOpen (fun _ => rfl)
  refine third.bind ?_ fun _ _ never => never
  rintro _ v ⟨rfl, different, holding⟩
  exact ends_pure ⟨holding, combined.bare.link _ _ different, combined.new,
    combined.steady.link combined.new⟩

end Operator

/-! Unary operators -/

/-- The operators around an operand are built from the inside out, in the order of any merge. -/
theorem ends_merged (left right : List Held) (le : Chosen → Chosen → Bool)
    {prefixes postfixes : List Chosen} {node : Nat}
    (arePrefix : ∀ chosen ∈ prefixes, chosen.Is .prefixOp)
    (arePostfix : ∀ chosen ∈ postfixes, chosen.Is .postfixOp)
    (holding : holds s
      (left ++ prefixes.reverse.flatMap Chosen.held ++ item node :: postfixes.flatMap Chosen.held ++
        right)) :
    Ends ((mergeBy le prefixes postfixes).foldlM (fun node chosen => createOperator chosen node none)
        node) s
      (fun last t => holds t (left ++ item last :: right) ∧ Steady s t ∧
        Grown s node t last ∧ (last = node → prefixes = [] ∧ postfixes = [])) (fun _ _ => False) := by
  -- Each step takes the first of one of the two lists, so the induction is on their lengths together.
  induction total : prefixes.length + postfixes.length generalizing prefixes postfixes node s with
  | zero =>
      have none : prefixes = [] := List.length_eq_zero_iff.mp (by omega)
      have also : postfixes = [] := List.length_eq_zero_iff.mp (by omega)
      subst none also
      rw [mergeBy, List.foldlM_nil]
      exact ends_pure ⟨by simpa using holding, Steady.refl s, Or.inl ⟨rfl, rfl⟩, fun _ => ⟨rfl, rfl⟩⟩
  | succ total ih =>
      have known : node < s.forest.size := grip.known holding (by simp)
      -- A later node is new, so it is not the one that was there.
      have later : ∀ {t u : ParseState} {next last : Nat}, s.forest.size ≤ next → t.forest.Bare next →
          Steady s t → Grown t next u last →
          Grown s node u last ∧ (last = node → prefixes = [] ∧ postfixes = []) := by
        intro t u next last new bare steady grown
        have size := steady.size
        rcases grown with ⟨rfl, rfl⟩ | ⟨new', bare'⟩
        · exact ⟨Or.inr ⟨new, bare⟩, fun same => by omega⟩
        · exact ⟨Or.inr ⟨by omega, bare'⟩, fun same => by omega⟩
      have viaPrefix : ∀ first rest, prefixes = first :: rest →
          Ends (do
            let next ← createOperator first node none
            (mergeBy le rest postfixes).foldlM (fun node chosen => createOperator chosen node none) next) s
            (fun last t => holds t (left ++ item last :: right) ∧ Steady s t ∧
              Grown s node t last ∧ (last = node → prefixes = [] ∧ postfixes = []))
            (fun _ _ => False) := by
        rintro first rest rfl
        have here := grip.ends_prefixOperator (left ++ rest.reverse.flatMap Chosen.held)
          (postfixes.flatMap Chosen.held ++ right) (arePrefix first List.mem_cons_self)
          (by simpa using holding)
        refine here.bind ?_ fun _ _ never => never
        rintro next t ⟨holding, bare, new, steady⟩
        refine (ih (fun chosen member => arePrefix chosen (List.mem_cons_of_mem _ member)) arePostfix
          (by simpa using holding) (by simp at total; omega)).imp ?_ fun _ _ never => never
        rintro last u ⟨holding, steadyMore, grown, _⟩
        exact ⟨holding, steady.trans steadyMore, later new bare steady grown⟩
      have viaPostfix : ∀ first rest, postfixes = first :: rest →
          Ends (do
            let next ← createOperator first node none
            (mergeBy le prefixes rest).foldlM (fun node chosen => createOperator chosen node none) next) s
            (fun last t => holds t (left ++ item last :: right) ∧ Steady s t ∧
              Grown s node t last ∧ (last = node → prefixes = [] ∧ postfixes = []))
            (fun _ _ => False) := by
        rintro first rest rfl
        have here := grip.ends_postfixOperator (left ++ prefixes.reverse.flatMap Chosen.held)
          (rest.flatMap Chosen.held ++ right) (arePostfix first List.mem_cons_self)
          (by simpa using holding)
        refine here.bind ?_ fun _ _ never => never
        rintro next t ⟨holding, bare, new, steady⟩
        refine (ih arePrefix (fun chosen member => arePostfix chosen (List.mem_cons_of_mem _ member))
          (by simpa using holding) (by simp at total ⊢; omega)).imp ?_ fun _ _ never => never
        rintro last u ⟨holding, steadyMore, grown, _⟩
        exact ⟨holding, steady.trans steadyMore, later new bare steady grown⟩
      cases prefixes with
      | nil =>
          cases postfixes with
          | nil => simp at total
          | cons first rest =>
              have none := viaPostfix first rest rfl
              rw [mergeBy] at none ⊢
              exact none
      | cons first rest =>
          cases postfixes with
          | nil =>
              have none := viaPrefix first rest rfl
              rw [mergeBy_nil] at none ⊢
              exact none
          | cons other others =>
              rw [mergeBy_cons_cons]
              split
              · exact viaPrefix first rest rfl
              · exact viaPostfix other others rfl

/-! Runs -/

/-- All operators of this priority are gone, and the others are left. -/
theorem ends_combineAt (left right : List Held) {priority : Int} {first : Nat} {links : List (Chosen × ItemId)}
    (binary : ∀ link ∈ links, link.1.Is .binary)
    (holding : holds s (left ++ heldRun ⟨first, links⟩ ++ right)) :
    Ends (Run.combineAt combine priority first links) s
      (fun run t => holds t (left ++ heldRun run ++ right) ∧ Steady s t ∧
        run.links.map (·.1) =
          (links.map (·.1)).filter (fun chosen => chosen.operator.priority ≠ priority) ∧
        (run.links = [] → Grown s first t run.first ∧ (run.first = first → links = [])))
      (fun _ _ => False) := by
  induction links generalizing first left s with
  | nil =>
      exact ends_pure ⟨holding, Steady.refl s, rfl, fun _ => ⟨Or.inl ⟨rfl, rfl⟩, fun _ => rfl⟩⟩
  | cons link rest ih =>
      obtain ⟨chosen, second⟩ := link
      have known : first < s.forest.size := grip.known holding (by simp [heldRun])
      have binaryRest := fun link member => binary link (List.mem_cons_of_mem _ member)
      unfold Run.combineAt
      split
      · rename_i same
        have here := grip.ends_combine left
          ((rest.flatMap fun link => link.1.held ++ [item link.2]) ++ right)
          (binary (chosen, second) List.mem_cons_self) (by simpa [heldRun] using holding)
        refine here.bind ?_ fun _ _ never => never
        rintro next t ⟨holding, bare, new, steady⟩
        refine (ih left binaryRest (by simpa [heldRun] using holding)).imp ?_ fun _ _ never => never
        rintro run u ⟨holding, steadyMore, links, grown⟩
        refine ⟨holding, steady.trans steadyMore, by simpa [same] using links, fun none => ?_⟩
        have size := steady.size
        have fresh : s.forest.size ≤ run.first ∧ u.forest.Bare run.first := by
          rcases (grown none).1 with ⟨same, rfl⟩ | ⟨new', bare'⟩
          · exact ⟨same ▸ new, same ▸ bare⟩
          · exact ⟨Nat.le_trans size new', bare'⟩
        exact ⟨Or.inr fresh, fun same =>
          absurd same (Nat.ne_of_gt (Nat.lt_of_lt_of_le known fresh.1))⟩
      · rename_i other
        refine (ih (left ++ item first :: chosen.held) binaryRest
          (by simpa [heldRun] using holding)).bind ?_ fun _ _ never => never
        rintro run t ⟨holding, steady, links, _⟩
        refine ends_pure ⟨by simpa [heldRun] using holding, steady, ?_, by simp⟩
        simpa [other] using links

theorem ends_foldAt {priorities : List Int} {run : Run ItemId}
    (binary : ∀ link ∈ run.links, link.1.Is .binary)
    (covered : ∀ link ∈ run.links, link.1.operator.priority ∈ priorities)
    (holding : holds s (left ++ heldRun run ++ right)) :
    Ends (Run.foldAt combine priorities run) s
      (fun last t => holds t (left ++ item last :: right) ∧ Steady s t ∧
        Grown s run.first t last ∧ (last = run.first → run.links = [])) (fun _ _ => False) := by
  induction priorities generalizing run s with
  | nil =>
      have none : run.links = [] := by
        rw [List.eq_nil_iff_forall_not_mem]
        exact fun link member => by simpa using covered link member
      exact ends_pure ⟨by simpa [heldRun, none] using holding, Steady.refl s, Or.inl ⟨rfl, rfl⟩,
        fun _ => none⟩
  | cons priority rest ih =>
      have known : run.first < s.forest.size := grip.known holding (by simp [heldRun])
      refine (grip.ends_combineAt left right binary holding).bind ?_ fun _ _ never => never
      rintro next t ⟨holding, steady, links, grown⟩
      have kept : ∀ link ∈ next.links, link.1.Is .binary ∧ link.1.operator.priority ∈ rest := by
        intro link member
        have listed : link.1 ∈ next.links.map (·.1) := List.mem_map_of_mem member
        rw [links, List.mem_filter] at listed
        obtain ⟨old, inLinks, same⟩ := List.mem_map.mp listed.1
        rw [← same] at listed ⊢
        have other : old.1.operator.priority ≠ priority := by simpa using listed.2
        exact ⟨binary old inLinks, (List.mem_cons.mp (covered old inLinks)).resolve_left other⟩
      refine (ih (fun link member => (kept link member).1) (fun link member => (kept link member).2)
        holding).imp ?_ fun _ _ never => never
      rintro last u ⟨holding, steadyMore, grownMore, none⟩
      have size := steady.size
      refine ⟨holding, steady.trans steadyMore, ?_⟩
      rcases grownMore with ⟨same, rfl⟩ | ⟨new, bare⟩
      · rw [same]
        exact grown (none same)
      · have fresh := Nat.le_trans size new
        exact ⟨Or.inr ⟨fresh, bare⟩, fun same =>
          absurd same (Nat.ne_of_gt (Nat.lt_of_lt_of_le known fresh))⟩

theorem ends_fold {run : Run ItemId} (binary : ∀ link ∈ run.links, link.1.Is .binary)
    (holding : holds s (left ++ heldRun run ++ right)) :
    Ends (Run.fold combine run) s
      (fun last t => holds t (left ++ item last :: right) ∧ Steady s t ∧
        Grown s run.first t last ∧ (last = run.first → run.links = [])) (fun _ _ => False) := by
  refine grip.ends_foldAt binary (fun link member => ?_) holding
  unfold Run.priorities
  rw [List.mem_eraseDups, sortBy_perm.mem_iff]
  exact List.mem_map_of_mem member

end Grip

end ExprLang
