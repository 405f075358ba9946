import ExprLang.Proofs.Declining.Attempts
import ExprLang.Proofs.Progress

/-!
Segments with extensions that decline and without extensions. A segment inside another one begins behind
a brace or the start marker of a code block, and an attempt behind a keyword; so with every nesting at
least one character less is left, and the nesting suffices for each attempt.
-/

namespace ExprLang

variable {grammar : Grammar} {whole : Text} {limit : Nat} {s a t b : ParseState} {α β : Type}

namespace Parse

/-! Steps that leave the cursor where it is -/

theorem follows_resting_bind {step : Parse α} {next nextAlone : α → Parse β} {ok : β → ParseState → Prop}
    {cursor : Cursor} [Echoes grammar whole (s.cursor.remaining + 1) step step]
    (resting : Resting step) (overlays : Overlays grammar whole s a) (same : s.cursor = cursor)
    (rest : ∀ value t b, Overlays grammar whole t b → t.cursor = cursor →
      Follows grammar whole (next value) (nextAlone value) t b ok) :
    Follows grammar whole (step >>= next) (step >>= nextAlone) s a ok := by
  have follows : Follows grammar whole step step s a _ := overlays.follows
  have still : Follows grammar whole step step s a fun _ t => t.cursor = s.cursor := by
    apply (Ends.and follows (resting s)).imp
    · rintro value t ⟨⟨b, run, there, _⟩, stays⟩
      exact ⟨b, run, there, stays⟩
    · exact fun _ _ stopped => stopped.1
  exact still.bind fun value t b there stays => rest value t b there (stays.trans same)

/-! Plain operands -/

instance (quote : Char) :
    Echoes grammar whole limit (textConstant grammar quote) (textConstant grammar quote) where
  follows s a overlays _ := by
    unfold textConstant
    refine follows_position_bind overlays (follows_text_bind overlays (follows_slice_bind overlays ?_))
    refine follows_resting_bind (resting_createLeaf _ _ _ _) overlays rfl fun item t b there same => ?_
    -- With or without a report, the cursor moves behind what has been decoded.
    have finish : ∀ u c, Overlays grammar whole u c → u.cursor = s.cursor → ∀ length,
        Follows grammar whole (moveTo (s.cursor.position + 1 + length) >>= fun _ => pure item)
          (moveTo (s.cursor.position + 1 + length) >>= fun _ => pure item) u c
          fun _ v => v.cursor.remaining ≤ s.cursor.remaining := by
      intro u c atop stays length
      refine (follows_moveTo atop ?_).bind fun _ v d beyond less => follows_pure beyond (stays ▸ less)
      rw [stays]
      omega
    split
    · exact follows_resting_bind (resting_report _ _ _) there same fun _ u c atop stays =>
        finish u c atop stays _
    · exact finish t b there same _

instance : Echoes grammar whole limit (name? grammar) (name? grammar) where
  follows s a overlays _ := by
    unfold name?
    refine follows_position_bind overlays (follows_text_bind overlays ?_)
    dsimp only
    split
    · exact follows_pure overlays (Nat.le_refl _)
    · refine follows_slice_bind overlays ?_
      refine follows_resting_bind (resting_createLeaf _ _ _ _) overlays rfl fun item t b there same => ?_
      refine (follows_moveTo there ?_).bind fun _ u c atop less => follows_pure atop (same ▸ less)
      rw [same]
      exact Grammar.le_nameEnd ..

section Inside

variable {inner alone : Inner} [∀ context, Echoes grammar whole limit (inner context) (alone context)]

@[instance]
theorem echoes_braces (name : Option ItemId) :
    Echoes grammar whole (limit + 1) (braces inner name) (braces alone name) where
  follows s a overlays near := by
    unfold braces
    refine follows_position_bind overlays (follows_current_bind overlays ?_)
    cases opens : s.cursor.text[s.cursor.position]?.bind BraceKind.ofOpening? with
    | none => exact follows_stop overlays ..
    | some kind =>
        obtain ⟨c, here, _⟩ := Option.bind_eq_some_iff.mp opens
        have inside := lt_size_of_getElem here
        refine follows_resting_bind (resting_createToken _ _ _) overlays rfl fun opening t b there same => ?_
        refine follows_resting_bind (resting_create _ _) there same fun item t b there same => ?_
        refine follows_resting_bind (resting_option_forM fun part => resting_addChild item part) there same
          fun _ t b there same => ?_
        refine follows_resting_bind (resting_addRegular _ _) there same fun _ t b there same => ?_
        refine (follows_skip there 1).bind fun _ u c atop moved => ?_
        -- Behind the brace one character less is left.
        have fewer : u.cursor.remaining < s.cursor.remaining := by
          simp only [moved, same, Cursor.skip, Cursor.moveTo, Cursor.remaining]
          omega
        refine (@Echoes.follows _ grammar whole limit _ _ ?_ u c atop (by omega)).imp fun _ _ less => ?_
        · exact echoes_bind inferInstance fun _ => echoes_bind inferInstance fun read => inferInstance
        · omega

theorem follows_codeBlock (overlays : Overlays grammar whole s a) (near : s.cursor.remaining < limit + 1)
    (starts : grammar.isBlockStartAt s.cursor.text s.cursor.position = true) :
    Follows grammar whole (codeBlock grammar inner) (codeBlock grammar alone) s a
      fun _ t => t.cursor.remaining ≤ s.cursor.remaining := by
  obtain ⟨markers, isBlock, filled, inText⟩ := Grammar.isBlockStartAt_inside starts
  unfold codeBlock
  refine follows_position_bind overlays ?_
  rw [isBlock]
  refine follows_slice_bind overlays ?_
  refine follows_resting_bind (resting_createToken _ _ _) overlays rfl fun token t b there same => ?_
  refine follows_resting_bind (resting_create _ _) there same fun block t b there same => ?_
  refine follows_resting_bind (resting_addRegular _ _) there same fun _ t b there same => ?_
  refine (follows_skip there _).bind fun _ u c atop moved => ?_
  -- Behind the start marker at least one character less is left.
  have fewer : u.cursor.remaining < s.cursor.remaining := by
    simp only [moved, same, Cursor.skip, Cursor.moveTo, Cursor.remaining]
    omega
  refine (@Echoes.follows _ grammar whole limit _ _ ?_ u c atop (by omega)).imp fun _ _ less => ?_
  · exact echoes_bind inferInstance fun _ => inferInstance
  · omega

instance : Echoes grammar whole (limit + 1) (literal? grammar inner) (literal? grammar alone) := by
  unfold literal?
  refine echoes_bind inferInstance fun name => ?_
  cases name with
  | none => infer_instance
  | some name =>
      -- Both look ahead from the same place.
      constructor
      intro s a overlays near
      change Follows grammar whole
        (if Grammar.isOpeningBraceAt s.cursor.text (s.cursor.gapEnd s.cursor.position) then _ else _)
        (if Grammar.isOpeningBraceAt a.cursor.text (a.cursor.gapEnd a.cursor.position) then _ else _) s a _
      rw [overlays.sameText, overlays.gapEnd]
      exact Echoes.follows s a overlays near

instance : Echoes grammar whole limit (operandFollows grammar) (operandFollows grammar) := by
  refine echoes_reading (fun _ => rfl) fun overlays => ?_
  simp only [overlays.sameText, overlays.gapEnd]

/-- Of what can stand where an operand can all is plain but for custom expressions. -/
theorem echoes_plainOperand (named : grammar.Named) (terms : List Term) :
    Echoes grammar whole (limit + 1) (plainOperand grammar inner terms)
      (plainOperand grammar alone terms) where
  follows s a overlays near := by
    unfold plainOperand
    refine follows_position_bind overlays (follows_text_bind overlays ?_)
    split
    · exact follows_pure overlays (Nat.le_refl _)
    · cases s.cursor.text[s.cursor.position]? with
      | none => exact follows_pure overlays (Nat.le_refl _)
      | some c =>
          dsimp only
          split
          · exact Echoes.follows s a overlays near
          · cases grammar.numberAt? s.cursor.text s.cursor.position with
            | some written => exact Echoes.follows s a overlays near
            | none =>
                dsimp only
                split
                · exact Echoes.follows s a overlays near
                · split
                  · rename_i starts
                    exact (follows_codeBlock overlays near starts).bind fun _ t b there less =>
                      follows_pure there less
                  · cases operator : grammar.operatorAt? s.cursor.text s.cursor.position
                        (isAfterOperand terms) with
                    | some written =>
                        have further := Nat.le_of_lt (Grammar.lt_stop_of_operatorAt named operator)
                        exact (follows_moveTo overlays further).bind fun _ t b there less =>
                          follows_pure there less
                    | none =>
                        refine (Echoes.follows s a overlays near).bind fun found t b there less => ?_
                        cases found with
                        | some item => exact follows_pure there less
                        | none => exact follows_stop there ..

/-! Prefixes and keywords -/

theorem follows_modifiers (passes : Nat) : ∀ pending s a, Overlays grammar whole s a →
    s.cursor.remaining < leeway limit pending.keywords →
    Follows grammar whole (modifiers grammar inner passes pending) (modifiers grammar alone passes pending)
      s a fun result t => t.cursor.remaining < leeway limit result.1.keywords := by
  induction passes with
  | zero => exact fun pending s a overlays near => follows_pure overlays near
  | succ passes ih =>
      intro pending s a overlays near
      unfold modifiers
      refine (Echoes.follows s a overlays near).bind fun _ t b there less => ?_
      have nearThere := Nat.lt_of_le_of_lt less near
      refine follows_text_bind there (follows_position_bind there ?_)
      split
      · have nearBraces := Nat.lt_of_lt_of_le nearThere (leeway_le limit pending.keywords)
        refine (Echoes.follows t b there nearBraces).bind fun item u c atop left => ?_
        have nearBehind := Nat.lt_of_le_of_lt left nearThere
        refine (Echoes.follows u c atop nearBehind).bind fun operand v d beyond same => ?_
        have nearBeyond := Nat.lt_of_le_of_lt same nearBehind
        split
        · exact ih _ v d beyond nearBeyond
        · exact follows_pure beyond nearBeyond
      · split
        · refine follows_remaining_bind there ?_
          refine (follows_keywordRun true _ _ t b there nearThere).bind fun keywords u c atop left => ?_
          split
          · exact ih _ u c atop left.1
          · exact follows_pure atop (Nat.lt_of_le_of_lt left.2 nearThere)
        · exact follows_pure there nearThere

end Inside

/-! Passes -/

theorem follows_settlePending (overlays : Overlays grammar whole s a) (draft : Draft) :
    Follows grammar whole (settlePending draft) (settlePending draft) s a
      fun result t => t.cursor.remaining ≤ s.cursor.remaining ∧ result.pending.keywords = [] := by
  unfold settlePending
  split
  · rename_i nothing
    have none := (Bool.and_eq_true_iff.mp nothing).2
    exact follows_pure overlays ⟨Nat.le_refl _, List.isEmpty_iff.mp none⟩
  · split
    · exact follows_pure overlays ⟨Nat.le_refl _, rfl⟩
    · exact overlays.follows.bind fun _ t b there less => follows_pure there ⟨less, rfl⟩

theorem follows_modifyOperand (overlays : Overlays grammar whole s a) (draft : Draft) (item : ItemId) :
    Follows grammar whole (modifyOperand draft item) (modifyOperand draft item) s a
      fun result t => t.cursor.remaining ≤ s.cursor.remaining ∧ result.pending.keywords = [] := by
  unfold modifyOperand
  split
  · exact follows_pure overlays ⟨Nat.le_refl _, rfl⟩
  · exact overlays.follows.bind fun _ t b there less => follows_pure there ⟨less, rfl⟩

/-- Where no keywords are pending one character more may be left. -/
theorem follows_settled (overlays : Overlays grammar whole s a) {draft : Draft} (progress : Progress)
    (none : draft.pending.keywords = []) (near : s.cursor.remaining < limit + 1) :
    Follows grammar whole (pure (draft, progress)) (pure (draft, progress)) s a
      fun result t => t.cursor.remaining < leeway limit result.1.pending.keywords :=
  follows_pure overlays (leeway_of_nil none ▸ near)

theorem follows_behindPostfixes (named : grammar.Named) (draft : Draft) (closedByBlock : Bool)
    (overlays : Overlays grammar whole s a) (none : draft.pending.keywords = [])
    (near : s.cursor.remaining < limit + 1) :
    Follows grammar whole (behindPostfixes grammar draft closedByBlock)
      (behindPostfixes grammar draft closedByBlock) s a
      fun result t => t.cursor.remaining < leeway limit result.1.pending.keywords := by
  unfold behindPostfixes
  split
  · exact follows_settled overlays _ none near
  · refine (Echoes.follows s a overlays near).bind fun _ t b there less => ?_
    have nearThere := Nat.lt_of_le_of_lt less near
    refine follows_position_bind there (follows_text_bind there ?_)
    split
    · exact follows_settled there _ none nearThere
    · cases operator : grammar.operatorAt? t.cursor.text t.cursor.position true with
      | none => exact follows_settled there _ none nearThere
      | some written =>
          have onward := Nat.le_of_lt (Grammar.lt_stop_of_operatorAt named operator)
          exact (follows_moveTo there onward).bind fun _ u c beyond moved =>
            follows_settled beyond _ none (Nat.lt_of_le_of_lt moved nearThere)

section Nested

variable (declines : grammar.Declines whole) (named : grammar.Named) {depth : Nat}
  [inside : ∀ context, Echoes grammar whole depth (segment grammar depth context)
    (segment grammar.bare depth context)]

include declines

theorem echoes_postfixes (context : Context) (target : ItemId) (passes : Nat) :
    Echoes grammar whole (depth + 1) (postfixes grammar (segment grammar depth) context target passes)
      (postfixes grammar.bare (segment grammar.bare depth) context target passes) := by
  induction passes with
  | zero =>
      unfold postfixes
      infer_instance
  | succ passes ih =>
      constructor
      intro s a overlays near
      unfold postfixes
      rw [codeBlock_bare]
      refine (Echoes.follows s a overlays near).bind fun _ t b there less => ?_
      have nearThere := Nat.lt_of_le_of_lt less near
      refine follows_text_bind there (follows_position_bind there ?_)
      apply Follows.imp _ fun _ _ left => Nat.le_trans left less
      change Follows grammar whole
        (if grammar.isBlockStartAt t.cursor.text t.cursor.position then _ else _)
        (if grammar.isBlockStartAt t.cursor.text t.cursor.position then _ else _) t b _
      split
      · rename_i starts
        refine (follows_codeBlock there nearThere starts).bind fun block u c atop left => ?_
        refine (@Echoes.follows _ grammar whole (depth + 1) _ _ ?_ u c atop
          (Nat.lt_of_le_of_lt left nearThere)).imp fun _ _ further => Nat.le_trans further left
        infer_instance
      · refine (follows_customPostfix declines there nearThere).bind ?_
        rintro _ u c atop ⟨rfl, same⟩
        exact follows_pure atop (Nat.le_of_eq same)

include named

theorem follows_afterOperand (context : Context) (draft : Draft) (item : ItemId)
    (overlays : Overlays grammar whole s a) (near : s.cursor.remaining < depth + 1) :
    Follows grammar whole (afterOperand grammar (segment grammar depth) context draft item)
      (afterOperand grammar.bare (segment grammar.bare depth) context draft item) s a
      fun result t => t.cursor.remaining < leeway depth result.1.pending.keywords := by
  rw [afterOperand_eq, afterOperand_eq, behindPostfixes_bare]
  refine (follows_modifyOperand overlays draft item).bind ?_
  rintro draft t b there ⟨less, none⟩
  have nearThere := Nat.lt_of_le_of_lt less near
  refine follows_remaining_bind there ?_
  refine ((echoes_postfixes declines context item _).follows t b there nearThere).bind
    fun run u c atop left => ?_
  refine follows_behindPostfixes named _ _ atop ?_ (Nat.lt_of_le_of_lt left nearThere)
  cases run.rejected <;> exact none

theorem follows_operand (draft : Draft) (overlays : Overlays grammar whole s a)
    (near : s.cursor.remaining < leeway depth draft.pending.keywords) :
    Follows grammar whole (operand grammar (segment grammar depth) draft)
      (operand grammar.bare (segment grammar.bare depth) draft) s a
      fun result t => t.cursor.remaining < leeway depth result.2.keywords := by
  unfold operand
  rw [plainOperand_bare]
  refine (Echoes.follows s a overlays near).bind fun _ t b there less => ?_
  have nearThere := Nat.lt_of_le_of_lt less near
  have nearCustom : draft.pending.keywords ≠ [] → t.cursor.remaining < depth := fun filled => by
    rwa [leeway_of_ne filled] at nearThere
  refine (follows_custom declines there _ nearCustom).bind ?_
  rintro _ u c atop ⟨rfl, same⟩
  have nearBehind := same ▸ nearThere
  refine ((echoes_plainOperand named _).follows u c atop
    (Nat.lt_of_lt_of_le nearBehind (leeway_le _ _))).bind fun found v d beyond left => ?_
  exact follows_pure beyond (Nat.lt_of_le_of_lt left nearBehind)

theorem follows_pass (context : Context) (draft : Draft) (overlays : Overlays grammar whole s a)
    (near : s.cursor.remaining < leeway depth draft.pending.keywords) :
    Follows grammar whole (pass grammar (segment grammar depth) context draft)
      (pass grammar.bare (segment grammar.bare depth) context draft) s a
      fun result t => t.cursor.remaining < leeway depth result.1.pending.keywords := by
  unfold pass
  rw [modifiers_bare]
  refine follows_remaining_bind overlays ?_
  refine (follows_modifiers _ _ s a overlays near).bind ?_
  rintro ⟨pending, item⟩ t b there (nearThere : _ < leeway depth pending.keywords)
  cases item with
  | some item =>
      exact follows_afterOperand declines named context _ item there
        (Nat.lt_of_lt_of_le nearThere (leeway_le _ _))
  | none =>
      refine (follows_operand declines named { draft with pending } there nearThere).bind ?_
      rintro ⟨found, pending⟩ u c atop (nearBehind : _ < leeway depth pending.keywords)
      have nearSettled := Nat.lt_of_lt_of_le nearBehind (leeway_le _ _)
      cases found with
      | operand item => exact follows_afterOperand declines named context _ item atop nearSettled
      | operators written =>
          refine (follows_settlePending atop _).bind ?_
          rintro draft v d beyond ⟨left, none⟩
          exact follows_settled beyond _ none (Nat.lt_of_le_of_lt left nearSettled)
      | stray item =>
          dsimp only
          split
          · exact follows_pure atop nearBehind
          · exact (Echoes.follows u c atop nearSettled).bind fun stray v d beyond left =>
              follows_settled beyond _ rfl (Nat.lt_of_le_of_lt left nearSettled)
      | prefixed item => exact follows_pure atop nearBehind
      | nothing => exact follows_pure atop nearBehind

theorem follows_passes (context : Context) (count : Nat) : ∀ draft s a, Overlays grammar whole s a →
    s.cursor.remaining < leeway depth draft.pending.keywords →
    Follows grammar whole (passes grammar (segment grammar depth) context count draft)
      (passes grammar.bare (segment grammar.bare depth) context count draft) s a
      fun _ t => t.cursor.remaining < depth + 1 := by
  induction count with
  | zero =>
      intro draft s a overlays _
      unfold passes
      exact follows_position_bind overlays (follows_stop overlays ..)
  | succ count ih =>
      intro draft s a overlays near
      unfold passes
      refine (follows_pass declines named context draft overlays near).bind ?_
      rintro ⟨draft, progress⟩ t b there (nearThere : _ < leeway depth draft.pending.keywords)
      cases progress with
      | again => exact ih draft t b there nearThere
      | done closedByBlock =>
          exact follows_pure there (Nat.lt_of_lt_of_le nearThere (leeway_le _ _))

theorem follows_segmentWith (context : Context) (overlays : Overlays grammar whole s a)
    (near : s.cursor.remaining < depth + 1) :
    Follows grammar whole (segmentWith grammar (segment grammar depth) context)
      (segmentWith grammar.bare (segment grammar.bare depth) context) s a fun _ _ => True := by
  unfold segmentWith
  refine follows_remaining_bind overlays ?_
  refine (follows_passes declines named context _ {} s a overlays near).bind ?_
  rintro ⟨draft, closedByBlock⟩ t b there nearThere
  refine (follows_settlePending there draft).bind ?_
  rintro draft u c atop ⟨left, _⟩
  have nearBehind := Nat.lt_of_le_of_lt left nearThere
  refine (Echoes.follows u c atop nearBehind).bind fun found v d beyond left => ?_
  have nearBeyond := Nat.lt_of_le_of_lt left nearBehind
  cases found with
  | some item =>
      exact (Echoes.follows v d beyond nearBeyond).bind fun _ w e last _ => follows_pure last trivial
  | none =>
      dsimp only
      split
      · exact follows_pure beyond trivial
      · exact (Echoes.follows v d beyond nearBeyond).bind fun _ w e last _ => follows_pure last trivial

end Nested

/-- Segments echo each other wherever the nesting suffices for the rest of the text. -/
theorem echoes_segment (declines : grammar.Declines whole) (named : grammar.Named) (depth : Nat)
    (context : Context) :
    Echoes grammar whole depth (segment grammar depth context) (segment grammar.bare depth context) := by
  induction depth generalizing context with
  | zero => exact ⟨fun _ _ _ never => absurd never (Nat.not_lt_zero _)⟩
  | succ depth ih =>
      have _ := ih
      refine ⟨fun s a overlays near => ?_⟩
      -- Without extensions a segment goes on, and both end at the same place.
      have onward := (segment_advances grammar.extensions_bare named).onwards (depth + 1) context a
        overlays.properAlone.inside
      have follows := follows_segmentWith declines named context overlays near
      apply Ends.imp follows
      · rintro value t ⟨b, run, there, _⟩
        refine ⟨b, run, there, ?_⟩
        obtain ⟨behind, _⟩ := onward.of_ok run
        rw [← there.remaining, ← overlays.remaining]
        exact Cursor.remaining_le behind.text behind.further
      · exact fun _ _ stopped => stopped

end Parse

end ExprLang
