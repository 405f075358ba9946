import ExprLang.Proofs.Keywords.Making
import ExprLang.Proofs.Stopping

/-!
No item carries a keyword twice. The keywords in front of an expression wait until it has been resolved,
and those in front of an operand are attached to it at once. Whatever keywords are attached to has none
by then: an operand that has just been made, an operator, a series, or the one operand of a segment, and
the keywords in front of that one have waited.
-/

namespace ExprLang

open Forest (Closed Varied Waiting Wordless)

/-! Drafts -/

namespace Draft

/-- What waits can be attached. If a single operand is all of the expression, it has no keywords while
there are some in front of the whole. -/
structure Ready (draft : Draft) (forest : Forest) : Prop where
  pending : Waiting draft.pending.keywords forest
  lead : Waiting draft.lead.keywords forest
  single : ∀ item, draft.terms = [.operand item] → draft.lead.keywords = [] ∨ Wordless item forest

/-- Terms may follow: no keywords lead an expression that has none yet. -/
structure Growing (draft : Draft) (forest : Forest) : Prop extends Ready draft forest where
  begins : draft.terms = [] → draft.lead.keywords = []

variable {draft : Draft} {forest after : Forest} {term : Term} {item : ItemId}

theorem Ready.later (ready : draft.Ready forest) (leaves : Forest.LeavesKeywords forest after) :
    draft.Ready after :=
  ⟨ready.pending.later leaves, ready.lead.later leaves,
    fun item only => (ready.single item only).imp_right (·.later leaves)⟩

instance (draft : Draft) : KeywordBound draft.Ready := ⟨fun ready => ready.pending.closed, Ready.later⟩

instance (draft : Draft) : KeywordBound draft.Growing :=
  ⟨fun growing => growing.pending.closed,
    fun growing leaves => ⟨growing.toReady.later leaves, growing.begins⟩⟩

theorem growing_empty (closed : Closed forest) : Growing {} forest :=
  ⟨⟨.nil closed, .nil closed, nofun⟩, fun _ => rfl⟩

/-- Nothing but one operand is left to resolve only if it is the first term. -/
theorem terms_addTerm (only : (draft.addTerm term).terms = [.operand item]) :
    draft.terms = [] ∧ term = .operand item := by
  simpa [addTerm, List.append_eq_singleton_iff] using only

/-- With another term the expression has begun. -/
theorem growing_addTerm (pending : Waiting draft.pending.keywords forest)
    (lead : Waiting draft.lead.keywords forest)
    (single : ∀ item, draft.terms = [] → term = .operand item →
      draft.lead.keywords = [] ∨ Wordless item forest) :
    (draft.addTerm term).Growing forest where
  pending := pending
  lead := lead
  single item only := single item (terms_addTerm only).1 (terms_addTerm only).2
  begins none := by simp [addTerm] at none

/-- Whatever is no operand may follow. -/
theorem Ready.addTerm (ready : draft.Ready forest) (other : ∀ item, term ≠ .operand item) :
    (draft.addTerm term).Growing forest :=
  growing_addTerm ready.pending ready.lead fun item _ same => absurd same (other item)

/-- Other modifiers may wait. -/
theorem Growing.withPending {pending : Modifiers} (growing : draft.Growing forest)
    (waiting : Waiting pending.keywords forest) : Growing { draft with pending } forest :=
  ⟨⟨waiting, growing.lead, growing.single⟩, growing.begins⟩

/-- What waits in front of the first term leads the expression, and nothing else does. -/
theorem Growing.leading (growing : draft.Growing forest) (first : draft.terms = []) :
    draft.leadWithPending.lead.keywords = draft.pending.keywords := by
  rw [leadWithPending, Modifiers.append, growing.begins first]
  rfl

theorem Growing.leadWithPending (growing : draft.Growing forest) (first : draft.terms = []) :
    draft.leadWithPending.Ready forest where
  pending := .nil growing.pending.closed
  lead := by
    rw [growing.leading first]
    exact growing.pending
  single item only := by
    rw [Draft.leadWithPending, first] at only
    cases only

end Draft

namespace Parse

variable {grammar : Grammar} {inner : Inner} {draft : Draft}

/-! What waits keeps waiting while other keywords are attached -/

instance (keywords : List ItemId) (owner item : ItemId) :
    Preserves (Waiting keywords) (addKeyword owner item) :=
  preserves_attach fun waiting ownerInside itemInside => waiting.link ownerInside itemInside

instance (keywords : List ItemId) (owner : ItemId) (modifiers : Modifiers) :
    Preserves (Waiting keywords) (attachModifiers owner modifiers) := by
  unfold attachModifiers
  infer_instance

/-! Pending modifiers -/

theorem attains_settlePending (draft : Draft) :
    Attains (fun forest => Varied forest ∧ draft.Growing forest)
      (fun settled forest => Varied forest ∧ settled.Ready forest) (settlePending draft) := by
  unfold settlePending
  split
  · exact attains_pure fun _ known => ⟨known.1, known.2.toReady⟩
  · split
    · rename_i first
      exact attains_pure fun _ known => ⟨known.1, known.2.leadWithPending (List.isEmpty_iff.mp first)⟩
    -- What is misplaced goes to a series of its own, above all that the draft knows of.
    · have kept : Preserves draft.Growing (misplaced draft.pending) :=
        preserves_of_contained fun _ => contained_misplaced _
      refine attains_bind ((attains_misplaced draft.pending).keeping kept fun _ growing =>
        growing.pending) fun stray => ?_
      refine attains_pure fun _ known => ⟨known.1, ?_⟩
      exact ((known.2.withPending (.nil known.1.closed)).addTerm (by nofun)).toReady

/-- The keywords in front of the first operand wait, and any other operand gets its own. -/
theorem attains_modifyOperand (draft : Draft) (item : ItemId) :
    Attains (fun forest => (Varied forest ∧ draft.Growing forest) ∧
        (draft.pending.keywords = [] ∨ Wordless item forest))
      (fun modified forest => Varied forest ∧ (modified.addTerm (.operand item)).Growing forest)
      (modifyOperand draft item) := by
  unfold modifyOperand
  split
  · rename_i empty
    have first := List.isEmpty_iff.mp empty
    refine attains_pure fun forest known => ⟨known.1.1, ?_⟩
    have ready := known.1.2.leadWithPending first
    refine Draft.growing_addTerm ready.pending ready.lead fun item _ same => ?_
    cases same
    rw [known.1.2.leading first]
    exact known.2
  -- The operand may be an old item, so only the keywords that lead the whole are known to stay.
  · rename_i later
    have kept : Preserves (Waiting draft.lead.keywords) (attachModifiers item draft.pending) := inferInstance
    refine attains_bind (((attains_attachModifiers item draft.pending).frame kept).given fun _ known =>
      ⟨⟨⟨known.1.1, known.1.2.pending⟩, known.2⟩, known.1.2.lead⟩) fun _ => ?_
    refine attains_pure fun _ known => ⟨known.1, ?_⟩
    refine Draft.growing_addTerm (.nil known.1.closed) known.2 fun _ first _ => ?_
    exact absurd (List.isEmpty_iff.mpr first) later

section Segment

variable [∀ context, Preserves Varied (inner context)]

/-! In front of an operand -/

/-- Braces that are no prefix after all have just been made. -/
theorem attains_modifiers (inside : InnerContained inner) (passes : Nat) : ∀ pending,
    Attains (fun forest => Varied forest ∧ Waiting pending.keywords forest)
      (fun read forest => (Varied forest ∧ Waiting read.1.keywords forest) ∧
        ∀ item ∈ read.2, Wordless item forest)
      (modifiers grammar inner passes pending) := by
  induction passes with
  | zero => exact fun _ => attains_pure fun _ known => ⟨known, nofun⟩
  | succ passes ih =>
      intro pending
      have kept : Preserves (Waiting pending.keywords) (braces inner none) :=
        preserves_of_contained fun _ => contained_braces inside none
      unfold modifiers
      refine attains_behind fun _ => attains_behind fun text => attains_behind fun place => ?_
      split
      · refine attains_bind ((attains_braces inside none).frame kept) fun item => ?_
        refine attains_behind fun follows => ?_
        cases follows with
        | true => exact (ih _).given fun _ known => ⟨known.1.1, known.2⟩
        | false =>
            refine attains_pure fun _ known => ⟨⟨known.1.1, known.2⟩, ?_⟩
            rintro _ ⟨⟩
            exact known.1.2
      · split
        · refine attains_behind fun count => ?_
          have waits : Preserves (Waiting pending.keywords)
              (keywordRun grammar true (count + 1) pending.keywords) := inferInstance
          refine attains_bind ((attains_keywordRun true _ _).keeping waits fun _ waiting => waiting) ?_
          intro keywords
          split
          · exact (ih { pending with keywords }).given fun _ known => known.1
          · exact attains_pure fun _ known => ⟨⟨known.1.1, known.2⟩, nofun⟩
        · exact attains_pure fun _ known => ⟨known, nofun⟩

/-- A custom expression takes the keywords over, and any other operand has just been made. -/
theorem attains_operand (inside : InnerContained inner) (draft : Draft) :
    Attains (fun forest => Varied forest ∧ draft.Growing forest)
      (fun read forest => (Varied forest ∧ Draft.Growing { draft with pending := read.2 } forest) ∧
        ∀ item, read.1 = .operand item → read.2.keywords = [] ∨ Wordless item forest)
      (operand grammar inner draft) := by
  have keptCustom (prefixes keywords : List ItemId) :
      Preserves draft.Growing (custom? grammar inner prefixes keywords) :=
    preserves_of_contained fun _ => contained_custom inside prefixes keywords
  have keptPlain : Preserves draft.Growing (plainOperand grammar inner draft.terms) :=
    preserves_of_contained fun _ => contained_plainOperand inside _
  unfold operand
  refine attains_behind fun _ => ?_
  refine attains_bind ((attains_custom inside _ _).keeping (keptCustom _ _) fun _ growing =>
    growing.pending) fun found => ?_
  cases found with
  | some item =>
      refine attains_behind fun place => attains_pure fun _ known => ?_
      exact ⟨⟨known.1, known.2.withPending (.nil known.1.closed)⟩, fun _ _ => Or.inl rfl⟩
  | none =>
      refine attains_bind ((attains_plainOperand inside draft.terms).frame keptPlain) fun found => ?_
      refine attains_pure fun _ known => ⟨⟨known.1.1, known.2⟩, ?_⟩
      exact fun item isItem => Or.inr (known.1.2 item isItem)

/-! Behind an operand -/

theorem growing_withOperand {forest : Forest} {item : ItemId}
    (growing : (draft.addTerm (.operand item)).Growing forest) (rejected : Option ItemId) :
    (withOperand draft item rejected).Growing forest := by
  cases rejected with
  | none => exact growing
  | some rejected => exact growing.addTerm (by nofun)

theorem attains_behindPostfixes (draft : Draft) (closedByBlock : Bool) :
    Attains (fun forest => Varied forest ∧ draft.Growing forest)
      (fun read forest => Varied forest ∧ read.1.Growing forest)
      (behindPostfixes grammar draft closedByBlock) := by
  unfold behindPostfixes
  split
  · exact attains_pure fun _ known => known
  · refine attains_behind fun _ => attains_behind fun place => attains_behind fun text => ?_
    split
    · exact attains_pure fun _ known => known
    · split
      · exact attains_pure fun _ known => known
      · exact attains_behind fun _ => attains_pure fun _ known => ⟨known.1, known.2.addTerm (by nofun)⟩

theorem attains_afterOperand (inside : InnerContained inner) (context : Context) (draft : Draft)
    (item : ItemId) :
    Attains (fun forest => (Varied forest ∧ draft.Growing forest) ∧
        (draft.pending.keywords = [] ∨ Wordless item forest))
      (fun read forest => Varied forest ∧ read.1.Growing forest)
      (afterOperand grammar inner context draft item) := by
  have varied : Preserves Varied (customPostfix? grammar inner) := preserves_customPostfix inside
  have kept (draft : Draft) : Preserves draft.Growing (customPostfix? grammar inner) :=
    preserves_of_contained fun _ => contained_customPostfix inside
  have keptInside (draft : Draft) : ∀ context, Preserves draft.Growing (inner context) := inside.preserves
  rw [afterOperand_eq]
  refine attains_bind (attains_modifyOperand draft item) fun modified => ?_
  refine attains_behind fun count => attains_behind fun run => ?_
  exact (attains_behindPostfixes _ _).given fun _ known =>
    ⟨known.1, growing_withOperand known.2 run.rejected⟩

/-! Passes -/

/-- From one operand to the next: what waits at the end is what the next operand begins with. -/
theorem attains_pass (inside : InnerContained inner) (context : Context) (draft : Draft) :
    Attains (fun forest => Varied forest ∧ draft.Growing forest)
      (fun read forest => Varied forest ∧ read.1.Growing forest) (pass grammar inner context draft) := by
  have kept (passes : Nat) : Preserves draft.Growing (modifiers grammar inner passes draft.pending) :=
    preserves_of_contained fun _ => contained_modifiers inside passes draft.pending
  unfold pass
  refine attains_behind fun count => ?_
  refine attains_bind ((attains_modifiers inside _ draft.pending).keeping (kept _) fun _ growing =>
    growing.pending) ?_
  rintro ⟨pending, item⟩
  cases item with
  | some item =>
      exact (attains_afterOperand inside context { draft with pending } item).given fun _ known =>
        ⟨⟨known.1.1.1, known.2.withPending known.1.1.2⟩, Or.inr (known.1.2 item rfl)⟩
  | none =>
      refine attains_bind ((attains_operand inside { draft with pending }).given fun _ known =>
        ⟨known.1.1.1, known.2.withPending known.1.1.2⟩) ?_
      rintro ⟨found, pending⟩
      cases found with
      | operand item =>
          exact (attains_afterOperand inside context { draft with pending } item).given fun _ known =>
            ⟨known.1, known.2 item rfl⟩
      | operators written =>
          refine attains_bind ((attains_settlePending { draft with pending }).given fun _ known =>
            known.1) fun settled => ?_
          exact attains_pure fun _ known => ⟨known.1, known.2.addTerm (by nofun)⟩
      -- The keywords belong to the custom expression, so at most prefixes are misplaced.
      | stray item =>
          dsimp only
          split
          · exact attains_pure fun _ known => ⟨known.1.1, known.1.2.addTerm (by nofun)⟩
          · have settled : Preserves (Draft.Growing { draft with pending := {} })
                (misplaced { prefixes := pending.prefixes }) :=
              preserves_of_contained fun _ => contained_misplaced _
            refine attains_bind (((attains_misplaced { prefixes := pending.prefixes }).keeping settled
              fun _ growing => growing.pending).given fun _ known => ?_) fun series => ?_
            · exact ⟨known.1.1, known.1.2.withPending (.nil known.1.1.closed)⟩
            · exact attains_pure fun _ known =>
                ⟨known.1, (known.2.addTerm (by nofun)).addTerm (by nofun)⟩
      | prefixed item =>
          exact attains_pure fun _ known => ⟨known.1.1, known.1.2.withPending known.1.2.pending⟩
      | nothing => exact attains_pure fun _ known => known.1

theorem attains_passes (inside : InnerContained inner) (context : Context) (count : Nat) : ∀ draft,
    Attains (fun forest => Varied forest ∧ draft.Growing forest)
      (fun read forest => Varied forest ∧ read.1.Growing forest)
      (passes grammar inner context count draft) := by
  induction count with
  | zero => exact fun _ => attains_behind fun _ => attains_stop
  | succ count ih =>
      intro draft
      refine attains_bind (attains_pass inside context draft) ?_
      rintro ⟨draft, progress⟩
      cases progress with
      | again => exact ih draft
      | done closedByBlock => exact attains_pure fun _ known => known

/-! Segments -/

/-- What leads the expression is attached to what it is resolved to, which has no keywords by then. -/
theorem preserves_segmentWith (inside : InnerContained inner) (context : Context) :
    Preserves Varied (segmentWith grammar inner context) := by
  suffices attains : Attains Varied (fun _ forest => Varied forest) (segmentWith grammar inner context) from
    ⟨attains⟩
  unfold segmentWith
  refine attains_behind fun count => ?_
  refine attains_bind ((attains_passes inside context _ {}).given fun _ varied =>
    ⟨varied, Draft.growing_empty varied.closed⟩) ?_
  rintro ⟨draft, closedByBlock⟩
  refine attains_bind (attains_settlePending draft) fun draft => ?_
  have kept : Preserves draft.Ready (resolve draft.terms) := inferInstance
  refine attains_bind ((attains_resolve draft.terms).frame kept) fun found => ?_
  cases found with
  | some item =>
      refine attains_bind ((attains_attachModifiers item draft.lead).given ?_) fun _ => ?_
      · rintro _ ⟨⟨varied, resolved⟩, ready⟩
        refine ⟨⟨varied, ready.lead⟩, ?_⟩
        rcases resolved item rfl with only | fresh
        -- An operand alone has kept clear of keywords while those of the whole were waiting.
        · exact ready.single item only
        · exact Or.inr fresh
      · exact attains_pure fun _ varied => varied
  | none =>
      dsimp only
      split
      · exact attains_pure fun _ known => known.1.1
      · refine attains_bind ((attains_misplaced draft.lead).given fun _ known =>
          ⟨known.1.1, known.2.lead⟩) fun _ => ?_
        exact attains_pure fun _ varied => varied

end Segment

/-- At every depth. -/
theorem varied_segment (grammar : Grammar) (depth : Nat) :
    ∀ context, Preserves Varied (segment grammar depth context) := by
  induction depth with
  | zero =>
      intro context
      unfold segment
      infer_instance
  | succ depth ih => exact fun context => preserves_segmentWith (contained_segment grammar depth) context

end Parse

namespace Grammar

theorem varied_finalState (grammar : Grammar) (text : Text) : Varied (grammar.finalState text).forest := by
  refine holds_finalState (Parse.varied_segment grammar (text.size + 1))
    ⟨grammar.closed_initialState text, fun owner => ?_⟩
  cases owner with
  | zero => exact .nil
  | succ owner => exact .nil

/-- No item of a parse has a keyword twice, whatever the extensions and the text. -/
theorem no_keyword_twice (grammar : Grammar) (text : String) (owner : ItemId) :
    ((grammar.parse text).forest.parts owner).keywords.Pairwise fun a b => ∀ keyword,
      (grammar.parse text).forest.tokenKind? a = some (.keyword keyword) →
      (grammar.parse text).forest.tokenKind? b ≠ some (.keyword keyword) :=
  ((grammar.varied_finalState (Text.ofString text)).keywords owner).imp
    fun apart keyword first second => apart ⟨keyword, first, second⟩

end Grammar

end ExprLang
