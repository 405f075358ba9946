import ExprLang.Proofs.Fields.Segments
import ExprLang.Proofs.Modifiers.Enclosed
import ExprLang.Proofs.Modifiers.Resolving
import ExprLang.Proofs.Tandem.Trailing

/-!
Prefixes and keywords on their way to an owner. Pending ones wait for the operand behind them, and those
in front of the first term for the whole expression, so the first operand is never modified before the
terms are resolved. From then on it is part of a tree, and only the root of the tree is modified.
-/

namespace ExprLang

open Forest

/-- Prefixes and keywords that can be attached as such, and are not modified themselves. -/
structure Modifiers.Fit (modifiers : Modifiers) (low : Nat) (loose : List ItemId) (forest : Forest) :
    Prop where
  prefixes : ∀ part ∈ modifiers.prefixes, forest.IsNameless part
  keywords : ∀ part ∈ modifiers.keywords, forest.IsKeywordToken part
  asides : ∀ part, part ∈ modifiers.prefixes ∨ part ∈ modifiers.keywords → forest.SetAside low loose part

/-- The item has got modifiers and nothing else. -/
structure Forest.Adorned (owner : ItemId) (P : ItemId → Prop) (before after : Forest) : Prop where
  guided : Guided [owner] [] before after
  kind : after.kind? owner = before.kind? owner
  postfixes : (after.parts owner).postfixes = (before.parts owner).postfixes
  grows : Grows owner P before after

namespace Modifiers

variable {before after : Forest} {modifiers more : Modifiers} {apart loose others : List ItemId} {low : Nat}

theorem fit_empty (low : Nat) (loose : List ItemId) (forest : Forest) : Fit {} low loose forest :=
  ⟨by simp, by simp, by simp⟩

theorem Fit.stays (fit : modifiers.Fit low loose before) (guided : Guided [] others before after)
    {now : List ItemId} (new : ∀ id ∈ now, id ∈ loose ∨ before.size ≤ id) : modifiers.Fit low now after where
  prefixes part member := guided.nameless (fit.prefixes part member) List.not_mem_nil
  keywords part member := guided.keyword (fit.keywords part member) List.not_mem_nil
  asides part member :=
    have aside := fit.asides part member
    aside.stays (Nat.le_refl _) guided.size (guided.modifiers aside.inside List.not_mem_nil)
      fun id isNow => (new id isNow).imp_right Or.inr

theorem Fit.fewer (fit : modifiers.Fit low loose before) (subset : others ⊆ loose) :
    modifiers.Fit low others before where
  prefixes := fit.prefixes
  keywords := fit.keywords
  asides part member := (fit.asides part member).stays (Nat.le_refl _) (Nat.le_refl _) rfl
    fun _ isOther => Or.inl (subset isOther)

theorem Fit.append (fit : modifiers.Fit low loose before) (others : more.Fit low loose before) :
    (modifiers.append more).Fit low loose before where
  prefixes part member := (List.mem_append.mp member).elim (fit.prefixes part) (others.prefixes part)
  keywords part member := (List.mem_append.mp member).elim (fit.keywords part) (others.keywords part)
  asides part either := by
    rcases either with isPrefix | isKeyword
    · exact (List.mem_append.mp isPrefix).elim (fun here => fit.asides part (Or.inl here))
        fun there => others.asides part (Or.inl there)
    · exact (List.mem_append.mp isKeyword).elim (fun here => fit.asides part (Or.inr here))
        fun there => others.asides part (Or.inr there)

end Modifiers

namespace Forest

variable {before mid after : Forest} {owner : ItemId} {P Q : ItemId → Prop}

theorem Adorned.trans (first : Adorned owner P before mid) (inside : owner < before.size)
    (second : Adorned owner P mid after) : Adorned owner P before after where
  guided := first.guided.again second.guided (by simpa using inside)
  kind := second.kind.trans first.kind
  postfixes := second.postfixes.trans first.postfixes
  grows := first.grows.trans first.guided.size inside second.guided second.grows

theorem Adorned.refl (neat : before.Neat) (owner : ItemId) : Adorned owner P before before :=
  ⟨.refl neat _, rfl, rfl, grows_of_parts rfl⟩

theorem Adorned.imp (adorned : Adorned owner P before after) (more : ∀ part, P part → Q part) :
    Adorned owner Q before after :=
  ⟨adorned.guided, adorned.kind, adorned.postfixes, adorned.grows.imp fun part holds => Or.inl (more part holds)⟩

/-- Whatever has a place as a modifier still has it. -/
theorem Adorned.suits (adorned : Adorned owner P before after) {part : ItemId} {place : Section}
    (aside : place = .prefixes ∨ place = .keywords) (suits : before.Suits owner part place) :
    after.Suits owner part place := by
  have kinds : ∀ {kind}, before.kind? part = some kind → after.kind? part = some kind := by
    intro kind isKind
    by_cases isOwner : part = owner
    · exact isOwner ▸ adorned.kind.trans (isOwner ▸ isKind)
    · exact (adorned.guided.same part (lt_size_of_kind isKind) (by simpa using isOwner)).kind.trans isKind
  rcases aside with rfl | rfl
  · obtain ⟨_, _, _, _, isKind⟩ := suits
    exact ⟨_, _, _, _, kinds isKind⟩
  · obtain ⟨_, _, isKind⟩ := suits
    exact ⟨_, _, kinds isKind⟩

/-- The root of a routed tree may be modified. -/
theorem Adorned.routed (adorned : Adorned owner P before after) {low : Nat}
    (routed : before.RoutedFrom low [] owner) : after.RoutedFrom low [] owner := by
  obtain ⟨tree, rfl, routed, items⟩ := routed
  have others : ∀ id ∈ tree.items, id ≠ tree.root → Same before after id := fun id member notRoot =>
    adorned.guided.same id (routed.stores.lt_size id member) (by simpa using notRoot)
  refine ⟨tree, rfl, routed.congr (fun id member => ?_) others, items⟩
  by_cases isRoot : id = tree.root
  · subst isRoot
    exact ⟨adorned.kind, adorned.postfixes, fun isWords => absurd isWords routed.stores.root_not_words⟩
  · exact (others id member isRoot).role

end Forest

namespace Parse

variable {grammar : Grammar} {inner : Inner} {s : ParseState}

theorem ends_attachAll_adorned {owner : ItemId} {place : Section} {parts : List ItemId}
    (aside : place = .prefixes ∨ place = .keywords) : ∀ {s : ParseState}, s.forest.Neat →
      owner < s.forest.size → (∀ part ∈ parts, s.forest.Suits owner part place) →
      Ends (parts.forM fun part => attach (·.attach owner part place false)) s
        (fun _ t => Adorned owner (· ∈ parts) s.forest t.forest) fun _ _ => True := by
  induction parts with
  | nil => exact fun neat _ _ => ends_pure (.refl neat owner)
  | cons part rest ih =>
      intro s neat inside suits
      have first : Ends (attach (·.attach owner part place false)) s
          (fun _ t => Adorned owner (· = part) s.forest t.forest) fun _ _ => True := by
        unfold attach attachOr
        simp only [ends_forest_bind]
        cases attached : s.forest.attach owner part place false with
        | error error => exact ends_error rfl trivial
        | ok next =>
            obtain ⟨rfl, ownerInside, partInside⟩ := Forest.attach_ok attached
            refine ends_ok rfl ⟨guided_link neat ownerInside partInside (suits part List.mem_cons_self),
              kind_link, ?_, grows_link ownerInside⟩
            rw [parts_link_owner ownerInside]
            rcases aside with rfl | rfl <;> rfl
      refine first.bind ?_ fun _ _ _ => trivial
      intro _ t adorned
      refine (ih adorned.guided.neat (Nat.lt_of_lt_of_le inside adorned.guided.size) fun other member =>
        adorned.suits aside (suits other (List.mem_cons_of_mem _ member))).imp ?_ fun _ _ _ => trivial
      exact fun _ u more => (adorned.imp fun _ isPart => List.mem_cons.mpr (Or.inl isPart)).trans inside
        (more.imp fun _ => List.mem_cons_of_mem _)

/-- Modifiers go to the sections that they belong to. -/
theorem ends_attachModifiers_adorned {owner : ItemId} {modifiers : Modifiers} {low : Nat}
    {loose : List ItemId} (neat : s.forest.Neat) (inside : owner < s.forest.size)
    (fit : modifiers.Fit low loose s.forest) :
    Ends (attachModifiers owner modifiers) s
      (fun _ t => Adorned owner (fun part => part ∈ modifiers.prefixes ∨ part ∈ modifiers.keywords)
        s.forest t.forest) fun _ _ => True := by
  refine (ends_attachAll_adorned (Or.inl rfl) neat inside fit.prefixes).bind ?_ fun _ _ _ => trivial
  intro _ t adorned
  refine (ends_attachAll_adorned (Or.inr rfl) adorned.guided.neat
    (Nat.lt_of_lt_of_le inside adorned.guided.size) fun part member =>
      adorned.suits (Or.inr rfl) (fit.keywords part member)).imp ?_ fun _ _ _ => trivial
  exact fun _ u more => (adorned.imp fun _ => Or.inl).trans inside (more.imp fun _ => Or.inr)

/-- Misplaced modifiers end up in a series of their own. -/
theorem ends_misplaced_guided {modifiers : Modifiers} {low : Nat} {loose : List ItemId}
    (neat : s.forest.Neat) (fit : modifiers.Fit low loose s.forest) :
    Ends (misplaced modifiers) s (fun series t => Guided [] [series] s.forest t.forest ∧
      t.forest.IsOperand series) fun _ _ => True := by
  unfold misplaced
  simp only [ends_forest_bind]
  refine ends_bind (ends_ok rfl ?_)
  refine ends_create_begun fun t begun => ?_
  have created : Guided [] [s.forest.size] s.forest t.forest :=
    begun.guided (.refl neat []) rfl (by rintro _ _ _ _ _ _ ⟨⟩)
  refine (ends_attachModifiers_adorned created.neat begun.inside
    (fit.stays created fun _ isLoose => Or.inl isLoose)).bind ?_ fun _ _ _ => trivial
  intro _ u adorned
  have isSeries := adorned.kind.trans begun.kind_new
  exact ends_pure ⟨created.change adorned.guided (List.mem_singleton_self _) adorned.kind
    fun notJoint => absurd ⟨_, isSeries, rfl⟩ notJoint, _, isSeries, rfl⟩

/-! What stands before an operand -/

theorem ends_keywordRun_guided (reportRepeats : Bool) {low : Nat} {loose : List ItemId} (passes : Nat) :
    ∀ {s : ParseState} {keywords : List ItemId}, s.forest.Neat → low ≤ s.forest.size →
      (∀ id ∈ loose, id < s.forest.size) →
      (∀ keyword ∈ keywords, s.forest.IsKeywordToken keyword ∧ s.forest.SetAside low loose keyword) →
      Ends (keywordRun grammar reportRepeats passes keywords) s
        (fun found t => Guided [] [] s.forest t.forest ∧
          ∀ keyword ∈ found, t.forest.IsKeywordToken keyword ∧ t.forest.SetAside low loose keyword)
        fun _ _ => True := by
  induction passes with
  | zero => exact fun neat _ _ known => ends_pure ⟨.refl neat [], known⟩
  | succ passes ih =>
      intro s keywords neat further older known
      unfold keywordRun
      refine Ends.bind ends_skipGap ?_ fun _ _ never => never.elim
      rintro _ t ⟨same, _⟩
      rw [← same] at neat further older known ⊢
      simp only [ends_position_bind, ends_text_bind]
      split
      · exact ends_pure ⟨.refl neat [], known⟩
      · rename_i keyword _
        simp only [ends_slice_bind]
        refine ends_bind (ends_ok rfl ?_)
        simp only [ends_forest_bind]
        split
        · cases reportRepeats with
          | true => exact ends_bind (ends_ok rfl (ends_pure ⟨.refl neat [], known⟩))
          | false => exact ends_pure ⟨.refl neat [], known⟩
        · refine (ends_createToken_guided (s := { t with
            cursor := t.cursor.skip keyword.text.length }) neat).bind ?_ fun _ _ _ => trivial
          rintro token u ⟨guided, isToken, bare⟩
          obtain ⟨above, inside⟩ := guided.new token (List.mem_singleton_self token)
          refine (ih guided.neat (Nat.le_trans further guided.size)
            (fun id isLoose => Nat.lt_of_lt_of_le (older id isLoose) guided.size)
            fun keyword member => ?_).imp ?_ fun _ _ _ => trivial
          · rcases List.mem_append.mp member with old | new
            · obtain ⟨isKeyword, aside⟩ := known keyword old
              exact ⟨guided.keyword isKeyword List.not_mem_nil, aside.stays (Nat.le_refl _) guided.size
                (guided.modifiers aside.inside List.not_mem_nil) fun _ isLoose => Or.inl isLoose⟩
            · obtain rfl := List.mem_singleton.mp new
              exact ⟨⟨_, _, isToken⟩, Nat.le_trans further above, inside,
                fun isLoose => absurd (older _ isLoose) (Nat.not_lt_of_le above), bare⟩
          · exact fun found v reached =>
              ⟨(guided.next reached.1).fewer (List.nil_subset _), reached.2⟩

theorem GivesSome.guided {before after : Forest} {found : Option ItemId}
    (given : GivesSome before after found) : Guided [] [] before after := by
  cases found with
  | none => exact given
  | some item => exact (show Gives before after item from given).guided.fewer (List.nil_subset _)

theorem GivesSome.behind {before mid after : Forest} {found : Option ItemId} {loose : List ItemId}
    (given : GivesSome mid after found) (guided : Guided [] loose before mid) :
    GivesSome before after found := by
  cases found with
  | none => exact (guided.next given).fewer (List.nil_subset _)
  | some item =>
      have gives : Gives mid after item := given
      exact ⟨(guided.next gives.guided).fewer (List.subset_append_right _ _), gives.operand, gives.bare⟩

theorem ends_operandFollows_same :
    Ends (operandFollows grammar) s (fun _ t => t.forest = s.forest) fun _ _ => True := by
  unfold operandFollows
  simp only [ends_get_bind]
  exact ends_pure rfl

theorem ends_modifiers_guided (guides : InnerGuides inner) {low : Nat} {loose : List ItemId}
    (passes : Nat) : ∀ {s : ParseState} {pending : Modifiers}, s.forest.Neat → low ≤ s.forest.size →
      (∀ id ∈ loose, id < s.forest.size) → pending.Fit low loose s.forest →
      Ends (modifiers grammar inner passes pending) s
        (fun read t => read.1.Fit low (loose ++ read.2.toList) t.forest ∧
          GivesSome s.forest t.forest read.2) fun _ _ => True := by
  induction passes with
  | zero => exact fun neat _ _ fit => ends_pure ⟨by simpa using fit, .refl neat []⟩
  | succ passes ih =>
      intro s pending neat further older fit
      unfold modifiers
      refine Ends.bind ends_skipGap ?_ fun _ _ never => never.elim
      rintro _ t ⟨same, _⟩
      rw [← same] at neat further older fit ⊢
      simp only [ends_position_bind, ends_text_bind]
      split
      -- Braces without a name: one prefix more, or the operand.
      · refine (gives_braces guides (.refl neat []) none (by rintro _ ⟨⟩)).bind ?_ fun _ _ _ => trivial
        rintro item u ⟨gives, nameless⟩
        obtain ⟨above, inside⟩ := gives.guided.new item (List.mem_singleton_self item)
        refine ends_operandFollows_same.bind ?_ fun _ _ _ => trivial
        intro follows v same
        rw [← same] at gives nameless inside
        split
        · have fitHere := fit.stays gives.guided fun _ isLoose => Or.inl isLoose
          have aside : v.forest.SetAside low loose item := ⟨Nat.le_trans further above, inside,
            fun isLoose => absurd (older item isLoose) (Nat.not_lt_of_le above), gives.bare⟩
          have more : Modifiers.Fit { pending with prefixes := pending.prefixes ++ [item] } low loose
              v.forest := by
            refine ⟨fun part member => ?_, fitHere.keywords, fun part member => ?_⟩
            · rcases List.mem_append.mp member with old | new
              · exact fitHere.prefixes part old
              · exact List.mem_singleton.mp new ▸ nameless rfl
            · rcases member with isPrefix | isKeyword
              · rcases List.mem_append.mp isPrefix with old | new
                · exact fitHere.asides part (Or.inl old)
                · exact List.mem_singleton.mp new ▸ aside
              · exact fitHere.asides part (Or.inr isKeyword)
          refine (ih gives.guided.neat (Nat.le_trans further gives.guided.size)
            (fun id isLoose => Nat.lt_of_lt_of_le (older id isLoose) gives.guided.size) more).imp ?_
            fun _ _ _ => trivial
          exact fun read w reached => ⟨reached.1, reached.2.behind gives.guided⟩
        · refine ends_pure ⟨fit.stays gives.guided fun id member => ?_, gives⟩
          exact (List.mem_append.mp member).imp_right fun isItem =>
            Option.mem_toList.mp isItem |> fun same => Option.some.inj same ▸ above
      · split
        -- A run of keywords, whose tokens are modifiers of the same operand.
        · simp only [ends_remaining_bind]
          refine (ends_keywordRun_guided true _ neat further older fun keyword member =>
            ⟨fit.keywords keyword member, fit.asides keyword (Or.inr member)⟩).bind ?_
            fun _ _ _ => trivial
          rintro keywords u ⟨guided, known⟩
          have fitHere := fit.stays guided fun _ isLoose => Or.inl isLoose
          split
          · have more : Modifiers.Fit { pending with keywords } low loose u.forest := by
              refine ⟨fitHere.prefixes, fun part member => (known part member).1, fun part member => ?_⟩
              exact member.elim (fun isPrefix => fitHere.asides part (Or.inl isPrefix))
                fun isKeyword => (known part isKeyword).2
            refine (ih guided.neat (Nat.le_trans further guided.size)
              (fun id isLoose => Nat.lt_of_lt_of_le (older id isLoose) guided.size) more).imp ?_
              fun _ _ _ => trivial
            exact fun read v reached => ⟨reached.1, reached.2.behind guided⟩
          · exact ends_pure ⟨by simpa using fitHere, guided⟩
        · exact ends_pure ⟨by simpa using fit, .refl neat []⟩

/-! Operands -/

/-- An operand that is found is new and loose, and there are no custom expressions. -/
def GivesFound (before after : Forest) : Found → Prop
  | .operand item => Gives before after item
  | .operators _ | .nothing => Guided [] [] before after
  | .stray _ | .prefixed _ => False

theorem gives_asOperand {step : Parse ItemId}
    (gives : Ends step s (fun item t => Gives s.forest t.forest item) fun _ _ => True) :
    Ends (do return .operand (← step)) s (fun found t => GivesFound s.forest t.forest found)
      fun _ _ => True :=
  gives.bind (fun _ _ given => ends_pure given) fun _ _ _ => trivial

theorem gives_plainOperand (guides : InnerGuides inner) (neat : s.forest.Neat) (terms : List Term) :
    Ends (plainOperand grammar inner terms) s (fun found t => GivesFound s.forest t.forest found)
      fun _ _ => True := by
  unfold plainOperand
  simp only [ends_position_bind, ends_text_bind]
  have nothing : Guided [] [] s.forest s.forest := .refl neat []
  split
  · exact ends_pure nothing
  · split
    · exact ends_pure nothing
    · rename_i c _
      split
      · exact gives_asOperand (gives_textConstant neat c)
      · split
        · exact gives_asOperand (gives_number neat _)
        · split
          · refine gives_asOperand ((gives_braces guides (.refl neat []) none (by rintro _ ⟨⟩)).imp ?_
              fun _ _ _ => trivial)
            exact fun _ _ reached => reached.1
          · split
            · exact gives_asOperand (gives_codeBlock guides neat)
            · split
              · exact ends_bind (ends_ok rfl (ends_pure nothing))
              · refine (gives_literal guides neat).bind ?_ fun _ _ _ => trivial
                intro found t given
                cases found with
                | some item => exact ends_pure given
                | none => exact ends_error rfl trivial

/-- What is behind an operand becomes a part of it, or is rejected. -/
theorem ends_attachPostfix_takes {target postfixed : ItemId} (neat : s.forest.Neat)
    (suits : ¬ s.forest.IsKeywordToken postfixed) :
    Ends (attachPostfix target postfixed) s (fun _ t => Receives target (· = postfixed) s.forest t.forest)
      fun _ _ => True := by
  unfold attachPostfix
  simp only [ends_forest_bind]
  split
  · refine (ends_attach_receives neat (Or.inr rfl) fun _ => suits).bind ?_ fun _ _ _ => trivial
    exact fun _ t receives => ends_pure receives
  · exact ends_bind (ends_ok rfl (ends_pure (.refl neat target)))

section Plain

variable (plain : grammar.extensions = [])

include plain

theorem gives_operand (guides : InnerGuides inner) (neat : s.forest.Neat) (draft : Draft) :
    Ends (operand grammar inner draft) s
      (fun read t => read.2 = draft.pending ∧ GivesFound s.forest t.forest read.1) fun _ _ => True := by
  rw [operand_of_plain plain]
  refine Ends.bind ends_skipGap ?_ fun _ _ never => never.elim
  rintro _ t ⟨same, _⟩
  rw [← same] at neat ⊢
  refine (gives_plainOperand guides neat draft.terms).bind ?_ fun _ _ _ => trivial
  exact fun found u given => ends_pure ⟨rfl, given⟩

/-! Postfixes -/

/-- Without extensions no keyword behind an operand triggers a postfix. -/
theorem ends_customPostfix_same (contained : InnerContained inner) (closed : s.forest.Closed) :
    Ends (customPostfix? grammar inner) s (fun found t => found = none ∧ t.forest = s.forest)
      fun _ _ => True := by
  unfold customPostfix?
  split
  · exact ends_pure ⟨rfl, rfl⟩
  · simp only [ends_get_bind]
    refine ((@contained_triggeredBehind _ grammar _ contained s closed.at_size).and
      (accounted_triggeredBehind plain s)).bind ?_ fun _ _ _ => trivial
    rintro _ t ⟨⟨_, above, _⟩, rfl, _⟩
    refine ends_bind (ends_ok rfl (ends_pure ⟨rfl, ?_⟩))
    exact above.untouched.truncate above.holds closed (above.closed closed)

theorem ends_postfixes_takes (guides : InnerGuides inner) (contained : InnerContained inner)
    (context : Context) {target : ItemId} (passes : Nat) :
    ∀ {s : ParseState}, s.forest.Neat → target < s.forest.size →
      Ends (postfixes grammar inner context target passes) s
        (fun _ t => Receives target (fun _ => False) s.forest t.forest) fun _ _ => True := by
  induction passes with
  | zero => exact fun neat _ => ends_pure (.refl neat target)
  | succ passes ih =>
      intro s neat inside
      unfold postfixes
      refine Ends.bind ends_skipGap ?_ fun _ _ never => never.elim
      rintro _ t ⟨same, _⟩
      rw [← same] at neat inside ⊢
      simp only [ends_position_bind, ends_text_bind]
      split
      · refine (gives_codeBlock guides neat).bind ?_ fun _ _ _ => trivial
        intro block u gives
        refine (ends_attachPostfix_takes gives.guided.neat gives.operand.not_keyword).bind ?_
          fun _ _ _ => trivial
        intro taken v takes
        have whole : Receives target (fun _ => False) t.forest v.forest :=
          .of_made gives.guided gives.bare inside takes
        split
        · exact ends_pure whole
        · split
          · exact ends_pure whole
          · refine (ih whole.guided.neat (Nat.lt_of_lt_of_le inside whole.guided.size)).imp ?_
              fun _ _ _ => trivial
            exact fun _ w more => whole.trans inside more
      · refine (ends_customPostfix_same plain contained neat.closed).bind ?_ fun _ _ _ => trivial
        rintro _ u ⟨rfl, same⟩
        have nothing : Receives target (fun _ => False) t.forest t.forest := .refl neat target
        exact ends_pure (same ▸ nothing)

end Plain

/-! Passes -/

/-- A draft on the way from `base`: its operands are loose, the one in front is not modified, and what
waits to be attached is good for it. -/
structure DraftedFrom (base forest : Forest) (draft : Draft) : Prop where
  guided : Guided [] draft.operands base forest
  operands : ∀ item ∈ draft.operands, forest.IsOperand item
  first : ∀ item, draft.terms.head? = some (.operand item) → forest.modifiers item = []
  pending : draft.pending.Fit base.size draft.operands forest
  lead : draft.lead.Fit base.size draft.operands forest

theorem mem_operands_of_term {draft : Draft} {item : ItemId} (member : .operand item ∈ draft.terms) :
    item ∈ draft.operands := List.mem_filterMap.mpr ⟨_, member, rfl⟩

namespace DraftedFrom

variable {base before after forest : Forest} {draft : Draft} {item : ItemId} {loose : List ItemId}

theorem start (neat : forest.Neat) : DraftedFrom forest forest {} where
  guided := .refl neat []
  operands := by simp [Draft.operands]
  first := by rintro item ⟨⟩
  pending := Modifiers.fit_empty _ _ forest
  lead := Modifiers.fit_empty _ _ forest

theorem stays (drafted : DraftedFrom base before draft) (guided : Guided [] loose before after) :
    DraftedFrom base after draft where
  guided := (drafted.guided.next guided).fewer (List.subset_append_left _ _)
  operands item member := guided.operand (drafted.operands item member) List.not_mem_nil
  first item isFirst := by
    have inside := (drafted.operands item (mem_operands_of_term (List.mem_of_mem_head? isFirst))).lt_size
    exact (guided.modifiers inside List.not_mem_nil).trans (drafted.first item isFirst)
  pending := drafted.pending.stays guided fun _ isLoose => Or.inl isLoose
  lead := drafted.lead.stays guided fun _ isLoose => Or.inl isLoose

/-- A term that is no operand. -/
theorem addOther (drafted : DraftedFrom base forest draft) {term : Term} (other : term.operand? = none) :
    DraftedFrom base forest (draft.addTerm term) where
  guided := by rw [Draft.operands_addTerm, other]; simpa using drafted.guided
  operands := by rw [Draft.operands_addTerm, other]; simpa using drafted.operands
  first item isFirst := by
    rw [Draft.addTerm, List.head?_append] at isFirst
    cases front : draft.terms.head? with
    | none =>
        rw [front] at isFirst
        obtain rfl : term = .operand item := by simpa using isFirst
        cases other
    | some first =>
        rw [front] at isFirst
        exact drafted.first item (front.trans isFirst)
  pending := by rw [Draft.operands_addTerm, other]; exact drafted.pending.fewer (by simp)
  lead := by rw [Draft.operands_addTerm, other]; exact drafted.lead.fewer (by simp)

theorem withPending (drafted : DraftedFrom base forest draft) {pending : Modifiers}
    (fit : pending.Fit base.size draft.operands forest) : DraftedFrom base forest { draft with pending } where
  guided := drafted.guided
  operands := drafted.operands
  first := drafted.first
  pending := fit
  lead := drafted.lead

theorem leadWithPending (drafted : DraftedFrom base forest draft) :
    DraftedFrom base forest draft.leadWithPending where
  guided := drafted.guided
  operands := drafted.operands
  first := drafted.first
  pending := Modifiers.fit_empty _ _ forest
  lead := drafted.lead.append drafted.pending

end DraftedFrom

/-- A draft with an operand that is no term of it yet. -/
structure Reaches (base forest : Forest) (draft : Draft) (item : ItemId) : Prop where
  drafted : DraftedFrom base forest draft
  guided : Guided [] (draft.operands ++ [item]) base forest
  operand : forest.IsOperand item
  bare : draft.terms = [] → forest.modifiers item = []
  pending : draft.pending.Fit base.size (draft.operands ++ [item]) forest
  lead : draft.lead.Fit base.size (draft.operands ++ [item]) forest
  other : item ∉ draft.operands

section Reaches

variable {base before after forest : Forest} {draft : Draft} {item : ItemId} {P : ItemId → Prop}

theorem DraftedFrom.reaches (drafted : DraftedFrom base before draft) (gives : Gives before after item) :
    Reaches base after draft item := by
  have above := (gives.guided.new item (List.mem_singleton_self item)).1
  have apart : ∀ id ∈ draft.operands ++ [item], id ∈ draft.operands ∨ before.size ≤ id := by
    intro id member
    refine (List.mem_append.mp member).imp_right fun isItem => ?_
    obtain rfl := List.mem_singleton.mp isItem
    exact above
  exact ⟨drafted.stays gives.guided, drafted.guided.next gives.guided, gives.operand, fun _ => gives.bare,
    drafted.pending.stays gives.guided apart, drafted.lead.stays gives.guided apart,
    fun member => absurd (drafted.operands item member).lt_size (Nat.not_lt_of_le above)⟩

theorem Reaches.withPending (reaches : Reaches base forest draft item) {pending : Modifiers}
    (fit : pending.Fit base.size (draft.operands ++ [item]) forest) :
    Reaches base forest { draft with pending } item :=
  ⟨reaches.drafted.withPending (fit.fewer (List.subset_append_left _ _)), reaches.guided, reaches.operand,
    reaches.bare, fit, reaches.lead, reaches.other⟩

/-- Only the operand is changed, and not its kind. -/
theorem Reaches.change (reaches : Reaches base before draft item) (guided : Guided [item] [] before after)
    (kind : after.kind? item = before.kind? item) (grows : Grows item P before after)
    (asides : ∀ part, P part → before.SetAside base.size (draft.operands ++ [item]) part)
    (bare : draft.terms = [] → after.modifiers item = []) : Reaches base after draft item := by
  have kinds : ∀ {id kind}, before.kind? id = some kind → after.kind? id = some kind := by
    intro id kindHere isKind
    by_cases isItem : id = item
    · exact isItem ▸ kind.trans (isItem ▸ isKind)
    · exact (guided.same id (lt_size_of_kind isKind) (by simpa using isItem)).kind.trans isKind
  have stillAside : ∀ {part}, before.SetAside base.size (draft.operands ++ [item]) part →
      after.SetAside base.size (draft.operands ++ [item]) part := fun {part} aside =>
    have notItem : part ∉ [item] := fun isItem => aside.fixed (List.mem_append_right _ isItem)
    aside.stays (Nat.le_refl _) guided.size (guided.modifiers aside.inside notItem)
      fun _ isLoose => Or.inl isLoose
  have fits : ∀ {modifiers : Modifiers}, modifiers.Fit base.size (draft.operands ++ [item]) before →
      modifiers.Fit base.size (draft.operands ++ [item]) after := fun fit => by
    refine ⟨fun part member => ?_, fun part member => ?_, fun part member => stillAside (fit.asides part member)⟩
    · obtain ⟨_, _, _, _, isKind⟩ := fit.prefixes part member
      exact ⟨_, _, _, _, kinds isKind⟩
    · obtain ⟨_, _, isKind⟩ := fit.keywords part member
      exact ⟨_, _, kinds isKind⟩
  have stays : ∀ id, before.IsOperand id → after.IsOperand id := by
    rintro id ⟨kindHere, isKind, isOperand⟩
    exact ⟨kindHere, kinds isKind, isOperand⟩
  have changed := reaches.guided.change guided (List.mem_append_right _ (List.mem_singleton_self item)) kind
    fun _ part owns => (grows part owns).imp_right fun either => either.elim
      (fun holds => stillAside (asides part holds)) fun aside =>
        aside.stays reaches.guided.size (Nat.le_refl _) rfl fun id isLoose =>
          Or.inr (Or.inl (reaches.guided.new id isLoose).2)
  have pending := fits reaches.pending
  have lead := fits reaches.lead
  refine ⟨⟨changed.fewer (List.subset_append_left _ _), fun id member => ?_, fun id isFirst => ?_,
    pending.fewer (List.subset_append_left _ _), lead.fewer (List.subset_append_left _ _)⟩, changed,
    stays _ reaches.operand, bare, pending, lead, reaches.other⟩
  · exact stays id (reaches.drafted.operands id member)
  · have member := mem_operands_of_term (List.mem_of_mem_head? isFirst)
    have different : id ≠ item := fun same => reaches.other (same ▸ member)
    exact (guided.modifiers (reaches.drafted.operands id member).lt_size (by simpa using different)).trans
      (reaches.drafted.first id isFirst)

theorem Reaches.addOperand (reaches : Reaches base forest draft item) :
    DraftedFrom base forest (draft.addTerm (.operand item)) where
  guided := by rw [Draft.operands_addTerm]; exact reaches.guided
  operands id member := by
    rw [Draft.operands_addTerm] at member
    rcases List.mem_append.mp member with old | new
    · exact reaches.drafted.operands id old
    · obtain rfl := List.mem_singleton.mp new
      exact reaches.operand
  first id isFirst := by
    rw [Draft.addTerm, List.head?_append] at isFirst
    cases terms : draft.terms with
    | nil =>
        rw [terms] at isFirst
        obtain rfl : item = id := by simpa using isFirst
        exact reaches.bare terms
    | cons term rest =>
        rw [terms] at isFirst
        exact reaches.drafted.first id (by rw [terms]; exact isFirst)
  pending := by rw [Draft.operands_addTerm]; exact reaches.pending
  lead := by rw [Draft.operands_addTerm]; exact reaches.lead

end Reaches

section Passes

variable {base : Forest} {draft : Draft} {item : ItemId}

theorem ends_settlePending_drafted (drafted : DraftedFrom base s.forest draft) :
    Ends (settlePending draft) s (fun settled t => DraftedFrom base t.forest settled)
      fun _ _ => True := by
  unfold settlePending
  split
  · exact ends_pure drafted
  · split
    · exact ends_pure drafted.leadWithPending
    · refine (ends_misplaced_guided drafted.guided.neat drafted.pending).bind ?_ fun _ _ _ => trivial
      rintro series t ⟨guided, _⟩
      exact ends_pure (((drafted.stays guided).withPending (Modifiers.fit_empty _ _ _)).addOther rfl)

/-- The operand may be modified now, but for the first one. -/
theorem ends_modifyOperand_reaches (reaches : Reaches base s.forest draft item) :
    Ends (modifyOperand draft item) s (fun after t => Reaches base t.forest after item)
      fun _ _ => True := by
  unfold modifyOperand
  split
  · exact ends_pure ⟨reaches.drafted.leadWithPending, reaches.guided, reaches.operand, reaches.bare,
      Modifiers.fit_empty _ _ _, reaches.lead.append reaches.pending, reaches.other⟩
  · rename_i filled
    refine (ends_attachModifiers_adorned reaches.guided.neat reaches.operand.lt_size
      reaches.pending).bind ?_ fun _ _ _ => trivial
    intro _ t adorned
    have after := reaches.change adorned.guided adorned.kind adorned.grows reaches.pending.asides
      fun empty => absurd (by simp [empty]) filled
    exact ends_pure (after.withPending (Modifiers.fit_empty _ _ _))

theorem ends_behindPostfixes_drafted (drafted : DraftedFrom base s.forest draft) (closedByBlock : Bool) :
    Ends (behindPostfixes grammar draft closedByBlock) s
      (fun read t => DraftedFrom base t.forest read.1) fun _ _ => True := by
  unfold behindPostfixes
  split
  · exact ends_pure drafted
  · refine Ends.bind ends_skipGap ?_ fun _ _ never => never.elim
    rintro _ t ⟨same, _⟩
    rw [← same] at drafted
    simp only [ends_position_bind, ends_text_bind]
    split
    · exact ends_pure drafted
    · split
      · exact ends_pure drafted
      · exact ends_bind (ends_ok rfl (ends_pure (drafted.addOther rfl)))

variable (plain : grammar.extensions = []) (guides : InnerGuides inner) (contained : InnerContained inner)

include plain guides contained

theorem ends_afterOperand_drafted (context : Context) (reaches : Reaches base s.forest draft item) :
    Ends (afterOperand grammar inner context draft item) s
      (fun read t => DraftedFrom base t.forest read.1) fun _ _ => True := by
  rw [afterOperand_eq]
  refine (ends_modifyOperand_reaches reaches).bind ?_ fun _ _ _ => trivial
  intro draft t reaches
  simp only [ends_remaining_bind]
  refine (ends_postfixes_takes plain guides contained context _ reaches.guided.neat
    reaches.operand.lt_size).bind ?_ fun _ _ _ => trivial
  intro run u takes
  have after := reaches.change takes.guided takes.kind takes.grows (fun _ never => never.elim)
    fun empty => takes.modifiers.trans (reaches.bare empty)
  refine ends_behindPostfixes_drafted ?_ _
  cases run.rejected with
  | none => exact after.addOperand
  | some rejected => exact after.addOperand.addOther rfl

theorem ends_pass_drafted (context : Context) (drafted : DraftedFrom base s.forest draft) :
    Ends (pass grammar inner context draft) s (fun read t => DraftedFrom base t.forest read.1)
      fun _ _ => True := by
  unfold pass
  simp only [ends_remaining_bind]
  refine (ends_modifiers_guided guides _ drafted.guided.neat drafted.guided.size
    (fun id member => (drafted.guided.new id member).2) drafted.pending).bind ?_ fun _ _ _ => trivial
  rintro ⟨pending, found⟩ t ⟨fit, given⟩
  cases found with
  | some item =>
      exact ends_afterOperand_drafted plain guides contained context ((drafted.reaches given).withPending fit)
  | none =>
      have drafted : DraftedFrom base t.forest { draft with pending } :=
        (drafted.stays given.guided).withPending (fit.fewer (List.subset_append_left _ _))
      refine (gives_operand plain guides drafted.guided.neat _).bind ?_ fun _ _ _ => trivial
      rintro ⟨found, _⟩ u ⟨rfl, givenHere⟩
      cases found with
      | operand item =>
          exact ends_afterOperand_drafted plain guides contained context (drafted.reaches givenHere)
      | operators written =>
          refine (ends_settlePending_drafted (drafted.stays givenHere)).bind ?_ fun _ _ _ => trivial
          exact fun settled v drafted => ends_pure (drafted.addOther rfl)
      | stray item => exact givenHere.elim
      | prefixed item => exact givenHere.elim
      | nothing => exact ends_pure (drafted.stays givenHere)

theorem ends_passes_drafted (context : Context) (count : Nat) :
    ∀ {s : ParseState} {draft : Draft}, DraftedFrom base s.forest draft →
      Ends (passes grammar inner context count draft) s
        (fun read t => DraftedFrom base t.forest read.1) fun _ _ => True := by
  induction count with
  | zero => exact fun _ => ends_error rfl trivial
  | succ count ih =>
      intro s draft drafted
      refine (ends_pass_drafted plain guides contained context drafted).bind ?_ fun _ _ _ => trivial
      rintro ⟨draft, progress⟩ t drafted
      cases progress with
      | again => exact ih drafted
      | done closedByBlock => exact ends_pure drafted

/-- What leads the expression is attached at last, to the root of the tree. -/
theorem ends_segmentWith_guided (context : Context) (neat : s.forest.Neat) :
    Ends (segmentWith grammar inner context) s
      (fun segment t => Guided [] [] s.forest t.forest ∧
        ∀ item ∈ segment.item, t.forest.RoutedFrom s.forest.size [] item) fun _ _ => True := by
  unfold segmentWith
  simp only [ends_remaining_bind]
  refine (ends_passes_drafted plain guides contained context _ (.start neat)).bind ?_ fun _ _ _ => trivial
  rintro ⟨draft, closedByBlock⟩ t drafted
  refine (ends_settlePending_drafted drafted).bind ?_ fun _ _ _ => trivial
  intro draft u drafted
  have operands : ∀ item, .operand item ∈ draft.terms →
      u.forest.IsOperand item ∧ item ∈ draft.operands := fun item member =>
    ⟨drafted.operands item (mem_operands_of_term member), mem_operands_of_term member⟩
  refine (ends_resolve_routed neat drafted.guided operands drafted.first).bind ?_ fun _ _ _ => trivial
  rintro found v resolves
  have guided := (drafted.guided.next resolves.guided).fewer (List.nil_subset _)
  have fit := drafted.lead.stays resolves.guided fun _ isLoose => Or.inl isLoose
  cases found with
  | some item =>
      have loose := resolves.loose item rfl
      have isLoose := List.mem_singleton_self item
      have fitItem : draft.lead.Fit s.forest.size [item] v.forest :=
        drafted.lead.stays resolves.guided fun id isItem =>
          List.mem_singleton.mp isItem ▸ resolves.source item rfl
      refine (ends_attachModifiers_adorned guided.neat (loose.new item isLoose).2 fitItem).bind ?_
        fun _ _ _ => trivial
      intro _ w adorned
      have changed := loose.change adorned.guided isLoose adorned.kind fun _ part owns =>
        (adorned.grows part owns).imp_right fun either => either.elim
          (fun isLead =>
            have aside := fitItem.asides part isLead
            aside.stays (Nat.le_refl _) adorned.guided.size (adorned.guided.modifiers aside.inside aside.fixed)
              fun _ isLoose => Or.inl isLoose)
          fun aside => aside.stays loose.size (Nat.le_refl _) rfl fun id isItem =>
            Or.inr (Or.inl (loose.new id isItem).2)
      refine ends_pure ⟨changed.fewer (List.nil_subset _), ?_⟩
      rintro _ ⟨⟩
      exact adorned.routed (resolves.routed item rfl)
  | none =>
      dsimp only
      split
      · exact ends_pure ⟨guided, by rintro _ ⟨⟩⟩
      · refine (ends_misplaced_guided guided.neat fit).bind ?_ fun _ _ _ => trivial
        rintro series w ⟨made, isOperand⟩
        refine ends_pure ⟨(guided.next made).fewer (List.nil_subset _), ?_⟩
        rintro _ ⟨⟩
        exact isOperand.routedFrom
          (Nat.le_trans guided.size (made.new series (List.mem_singleton_self series)).1)

end Passes

theorem guides_segment (plain : grammar.extensions = []) (depth : Nat) :
    InnerGuides (segment grammar depth) := by
  induction depth with
  | zero => exact fun _ _ _ => ends_error rfl trivial
  | succ depth ih =>
      exact fun context _ neat =>
        ends_segmentWith_guided plain ih (contained_segment grammar depth) context neat

/-! The root -/

theorem ends_afterStatement_collects {root start : Nat} {closedByBlock : Bool} (neat : s.forest.Neat)
    (collecting : Collecting s.forest root) :
    Ends (afterStatement grammar root start closedByBlock) s
      (fun _ t => Collects root s.forest t.forest) fun _ _ => True := by
  unfold afterStatement
  refine Ends.bind ends_skipGap ?_ fun _ _ never => never.elim
  rintro _ t ⟨same, _⟩
  rw [← same] at neat collecting ⊢
  have unchanged := collecting.refl neat
  simp only [ends_position_bind, ends_current_bind]
  split
  · exact ends_pure unchanged
  · split
    · refine (ends_addSeparator_collects neat collecting).bind ?_ fun _ _ _ => trivial
      exact fun _ _ collects => ends_pure collects
    · split
      · exact ends_pure unchanged
      · simp only [ends_text_bind]
        split
        · exact ends_ok rfl unchanged
        · split
          · exact ends_ok rfl unchanged
          · split
            · exact ends_error rfl trivial
            · exact ends_pure unchanged

theorem ends_rootStatements_collects (guides : InnerGuides inner) {root : ItemId} (passes : Nat) :
    ∀ {s : ParseState}, s.forest.Neat → Collecting s.forest root →
      Ends (rootStatements grammar inner root passes) s
        (fun _ t => Collects root s.forest t.forest) fun _ _ => True := by
  induction passes with
  | zero => exact fun _ _ => ends_error rfl trivial
  | succ passes ih =>
      intro s neat collecting
      unfold rootStatements
      simp only [ends_position_bind]
      refine (ends_collectsInner guides neat collecting).bind ?_ fun _ _ _ => trivial
      intro segment t added
      refine added.bind ?_ fun _ _ _ => trivial
      intro _ u added
      refine (ends_afterStatement_collects added.guided.neat added.collecting).bind ?_ fun _ _ _ => trivial
      intro again v collects
      have whole := added.trans collecting.inside collects
      cases again with
      | false => exact ends_pure whole
      | true =>
          exact (ih whole.guided.neat whole.collecting).imp
            (fun _ _ more => whole.trans collecting.inside more) fun _ _ _ => trivial

end Parse

end ExprLang
