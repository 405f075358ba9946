import ExprLang.Proofs.Gaps

/-!
The comments of gaps, and which of them a cursor has noted. A position has at most one comment that
starts there, so comments that are kept in text order, one for each start, are known by their starts.
-/

namespace ExprLang

namespace CommentMarkers

variable {markers : CommentMarkers} {text : Text} {place : Nat}

def commentsWithin (markers : CommentMarkers) (text : Text) : Nat → Nat → List Comment
  | 0, _ => []
  | pieces + 1, place =>
      match markers.commentAt? text place with
      | some comment => comment :: commentsWithin markers text pieces comment.stop
      | none =>
          if text.isBlankAt place then commentsWithin markers text pieces (place + 1) else []

/-- The comments of the gap at `place`, in text order. -/
def commentsFrom (markers : CommentMarkers) (text : Text) (place : Nat) : List Comment :=
  markers.commentsWithin text (text.size - place) place

theorem commentsWithin_settled (settled : markers.Settled text place) (pieces : Nat) :
    markers.commentsWithin text pieces place = [] := by
  cases pieces with
  | zero => rfl
  | succ pieces => simp [commentsWithin, settled.1, settled.2]

/-- Where a gap ends at once there are no comments. -/
theorem commentsFrom_of_settled (ends : markers.gapEnd text place = place) :
    markers.commentsFrom text place = [] := by
  have settled : markers.Settled text (markers.gapEnd text place) := settled_gapEnd
  rw [ends] at settled
  exact commentsWithin_settled settled _

/-- It does not matter how much room is left behind the end of the text. -/
theorem commentsWithin_enough {pieces : Nat} (enough : text.size - place ≤ pieces) :
    markers.commentsWithin text pieces place = markers.commentsFrom text place := by
  have same : ∀ {a b place : Nat}, text.size - place ≤ a → text.size - place ≤ b →
      markers.commentsWithin text a place = markers.commentsWithin text b place := by
    intro a
    induction a with
    | zero =>
        intro b place left _
        have settled : markers.Settled text place := settled_of_size_le (by omega)
        rw [commentsWithin_settled settled, commentsWithin_settled settled]
    | succ a ih =>
        intro b place left right
        cases b with
        | zero =>
            have settled : markers.Settled text place := settled_of_size_le (by omega)
            rw [commentsWithin_settled settled, commentsWithin_settled settled]
        | succ b =>
            rw [commentsWithin, commentsWithin]
            cases found : markers.commentAt? text place with
            | some comment =>
                have further := (commentAt_inside found).1
                exact congrArg (comment :: ·) (ih (by omega) (by omega))
            | none => exact congrArg (if text.isBlankAt place then · else []) (ih (by omega) (by omega))
  exact same enough (Nat.le_refl _)

theorem commentsFrom_comment {comment : Comment} (found : markers.commentAt? text place = some comment) :
    markers.commentsFrom text place = comment :: markers.commentsFrom text comment.stop := by
  have further := (commentAt_inside found).1
  calc markers.commentsFrom text place
      = markers.commentsWithin text (text.size - place + 1) place :=
        (commentsWithin_enough (Nat.le_succ _)).symm
    _ = comment :: markers.commentsWithin text (text.size - place) comment.stop := by
        rw [commentsWithin, found]
    _ = comment :: markers.commentsFrom text comment.stop :=
        congrArg (comment :: ·) (commentsWithin_enough (by omega))

theorem commentsFrom_blank (none : markers.commentAt? text place = none)
    (blank : text.isBlankAt place = true) :
    markers.commentsFrom text place = markers.commentsFrom text (place + 1) :=
  calc markers.commentsFrom text place
      = markers.commentsWithin text (text.size - place + 1) place :=
        (commentsWithin_enough (Nat.le_succ _)).symm
    _ = markers.commentsWithin text (text.size - place) (place + 1) := by
        rw [commentsWithin, none]
        exact if_pos blank
    _ = markers.commentsFrom text (place + 1) := commentsWithin_enough (by omega)

theorem le_gapEndWithin (pieces : Nat) : place ≤ markers.gapEndWithin text pieces place := by
  induction pieces generalizing place with
  | zero => exact Nat.le_refl _
  | succ pieces ih =>
      unfold gapEndWithin
      split
      · rename_i comment found
        exact Nat.le_trans (Nat.le_of_lt (commentAt_inside found).1) ih
      · split
        · exact Nat.le_of_succ_le ih
        · exact Nat.le_refl _

theorem commentsWithin_inside {pieces : Nat} {comment : Comment}
    (member : comment ∈ markers.commentsWithin text pieces place) :
    markers.commentAt? text comment.start = some comment ∧ place ≤ comment.start ∧
      comment.stop ≤ markers.gapEndWithin text pieces place := by
  induction pieces generalizing place with
  | zero => cases member
  | succ pieces ih =>
      unfold commentsWithin at member
      unfold gapEndWithin
      cases found : markers.commentAt? text place with
      | some first =>
          rw [found] at member
          have starts := start_of_commentAt found
          have filled := (commentAt_inside found).1
          rcases List.mem_cons.mp member with rfl | later
          · rw [starts]
            exact ⟨found, Nat.le_refl _, le_gapEndWithin pieces⟩
          · obtain ⟨same, behind, inside⟩ := ih later
            exact ⟨same, by omega, inside⟩
      | none =>
          rw [found] at member
          dsimp only at member ⊢
          split at member
          · obtain ⟨same, behind, inside⟩ := ih member
            rename_i blank
            rw [if_pos blank]
            exact ⟨same, by omega, inside⟩
          · cases member

/-- The comments of a gap stand in it. -/
theorem commentsFrom_inside {comment : Comment}
    (member : comment ∈ markers.commentsFrom text place) :
    markers.commentAt? text comment.start = some comment ∧ place ≤ comment.start ∧
      comment.stop ≤ markers.gapEnd text place := commentsWithin_inside member

/-- A gap with a comment without end runs out. -/
theorem runsOut_of_unclosed {comment : Comment} (member : comment ∈ markers.commentsFrom text place)
    (unclosed : comment.closed = false) : markers.runsOut text place = true := by
  have within : ∀ {pieces place}, comment ∈ markers.commentsWithin text pieces place →
      markers.runsOutWithin text pieces place = true := by
    intro pieces
    induction pieces with
    | zero => nofun
    | succ pieces ih =>
        intro place member
        rw [commentsWithin] at member
        rw [runsOutWithin]
        cases found : markers.commentAt? text place with
        | some first =>
            rw [found] at member
            rcases List.mem_cons.mp member with rfl | later
            · simp [unclosed]
            · simp [ih later]
        | none =>
            rw [found] at member
            dsimp only at member ⊢
            split at member
            · rename_i blank
              simp [blank, ih member]
            · cases member
  exact within member

theorem commentsWithin_ordered (pieces : Nat) :
    (markers.commentsWithin text pieces place).Pairwise fun a b => a.stop ≤ b.start := by
  induction pieces generalizing place with
  | zero => exact List.Pairwise.nil
  | succ pieces ih =>
      unfold commentsWithin
      split
      · exact List.pairwise_cons.mpr ⟨fun later member => (commentsWithin_inside member).2.1, ih⟩
      · split
        · exact ih
        · exact List.Pairwise.nil

/-! Between pieces -/

/-- The comments of the gaps from `a` to `b`. -/
def commentsBetween (markers : CommentMarkers) (text : Text) :
    Nat → List (Nat × Nat) → Nat → List Comment
  | a, [], b => if b = a then [] else markers.commentsFrom text a
  | a, (_, stop) :: rest, b =>
      markers.commentsFrom text a ++ commentsBetween markers text stop rest b

variable {a b c : Nat} {pieces more : List (Nat × Nat)}

/-- It does not matter where the pieces are cut. -/
theorem commentsBetween_append (left : markers.Spaced text a pieces b)
    (right : markers.Spaced text b more c) :
    markers.commentsBetween text a (pieces ++ more) c =
      markers.commentsBetween text a pieces b ++ markers.commentsBetween text b more c := by
  induction pieces generalizing a with
  | nil =>
      by_cases same : b = a
      · subst same
        simp [commentsBetween]
      · have isEnd : b = markers.gapEnd text a := left.resolve_left same
        have still : markers.gapEnd text b = b := by rw [isEnd, gapEnd_gapEnd]
        have none := commentsFrom_of_settled still
        cases more with
        | nil =>
            have stays : c = b := right.elim id fun further => further.trans still
            simp [commentsBetween, stays, same]
        | cons piece rest => simp [commentsBetween, same, none]
  | cons piece rest ih =>
      simp only [List.cons_append, commentsBetween, ih left.2.2, List.append_assoc]

/-- Behind the last piece a whole gap is passed over. -/
theorem commentsBetween_gap :
    markers.commentsBetween text b [] (markers.gapEnd text b) = markers.commentsFrom text b := by
  unfold commentsBetween
  split
  · rename_i stays
    exact (commentsFrom_of_settled stays).symm
  · rfl

/-- One more piece comes with the gap in front of it. -/
theorem commentsBetween_snoc {stop : Nat} (left : markers.Spaced text a pieces b)
    (nonempty : markers.gapEnd text b < stop) :
    markers.commentsBetween text a (pieces ++ [(markers.gapEnd text b, stop)]) stop =
      markers.commentsBetween text a pieces b ++ markers.commentsFrom text b := by
  have right : markers.Spaced text b [(markers.gapEnd text b, stop)] stop :=
    ⟨rfl, nonempty, spaced_refl markers text stop⟩
  rw [commentsBetween_append left right]
  simp [commentsBetween]

theorem commentsBetween_genuine {comment : Comment}
    (member : comment ∈ markers.commentsBetween text a pieces b) :
    markers.commentAt? text comment.start = some comment := by
  induction pieces generalizing a with
  | nil =>
      unfold commentsBetween at member
      split at member
      · cases member
      · exact (commentsFrom_inside member).1
  | cons piece rest ih =>
      exact (List.mem_append.mp member).elim (fun inGap => (commentsFrom_inside inGap).1) ih

/-- From `a` to `b` the comments stand in text order. -/
theorem commentsBetween_ordered (spaced : markers.Spaced text a pieces b) :
    (∀ comment ∈ markers.commentsBetween text a pieces b, a ≤ comment.start) ∧
      (markers.commentsBetween text a pieces b).Pairwise fun a b => a.stop ≤ b.start := by
  induction pieces generalizing a with
  | nil =>
      unfold commentsBetween
      split
      · exact ⟨nofun, List.Pairwise.nil⟩
      · exact ⟨fun comment member => (commentsFrom_inside member).2.1, commentsWithin_ordered _⟩
  | cons piece rest ih =>
      obtain ⟨starts, filled, later⟩ := spaced
      obtain ⟨behind, ordered⟩ := ih later
      have before : a ≤ piece.1 := starts ▸ le_gapEnd
      refine ⟨fun comment member => ?_, List.pairwise_append.mpr ⟨commentsWithin_ordered _, ordered, ?_⟩⟩
      · rcases List.mem_append.mp member with first | second
        · exact (commentsFrom_inside first).2.1
        · have := behind comment second
          omega
      · intro first inGap second inRest
        have ends := (commentsFrom_inside inGap).2.2
        have := behind second inRest
        omega

/-- No comment overlaps a piece. -/
theorem commentsBetween_apart {comment : Comment} {piece : Nat × Nat}
    (spaced : markers.Spaced text a pieces b)
    (member : comment ∈ markers.commentsBetween text a pieces b) (isPiece : piece ∈ pieces) :
    comment.stop ≤ piece.1 ∨ piece.2 ≤ comment.start := by
  induction pieces generalizing a with
  | nil => cases isPiece
  | cons first rest ih =>
      obtain ⟨filled, apart⟩ := spaced.apart
      obtain ⟨behind, _⟩ := List.pairwise_cons.mp apart
      obtain ⟨starts, _, later⟩ := spaced
      rcases List.mem_append.mp member with inGap | inRest
      · have ends := (commentsFrom_inside inGap).2.2
        rw [starts] at ends
        rcases List.mem_cons.mp isPiece with rfl | isLater
        · exact Or.inl ends
        · have short := (filled first List.mem_cons_self).2
          have further := behind piece isLater
          exact Or.inl (by omega)
      · rcases List.mem_cons.mp isPiece with rfl | isLater
        · exact Or.inr ((commentsBetween_ordered later).1 comment inRest)
        · exact ih later inRest isLater

/-- The comments of a gap are not empty, so those in order are sorted by their starts. -/
theorem commentsBetween_sorted (spaced : markers.Spaced text a pieces b) :
    (markers.commentsBetween text a pieces b).Pairwise (·.start < ·.start) := by
  refine (commentsBetween_ordered spaced).2.imp_of_mem fun {first second} inFirst _ before => ?_
  have genuine := commentsBetween_genuine inFirst
  exact Nat.lt_of_lt_of_le (commentAt_inside genuine).1 before

/-- At the end of the text no comment is left out. -/
theorem commentsBetween_eq (spaced : markers.Spaced text a pieces b) (ends : markers.gapEnd text b = b) :
    markers.commentsBetween text a pieces b =
      (a :: pieces.map Prod.snd).flatMap (markers.commentsFrom text) := by
  induction pieces generalizing a with
  | nil =>
      unfold commentsBetween
      split
      · rename_i same
        subst same
        simp [commentsFrom_of_settled ends]
      · simp
  | cons piece rest ih =>
      rw [commentsBetween, ih spaced.2.2]
      simp

end CommentMarkers

/-! Noting comments -/

namespace Comment

variable {comment : Comment} {comments : List Comment}

theorem mem_record {other : Comment} (member : other ∈ comment.record comments) :
    other = comment ∨ other ∈ comments := by
  induction comments with
  | nil => exact Or.inl (List.mem_singleton.mp member)
  | cons first rest ih =>
      unfold record at member
      grind

theorem subset_record : comments ⊆ comment.record comments := by
  induction comments with
  | nil => nofun
  | cons first rest ih =>
      unfold record
      grind

/-- A comment is noted unless there is one with its start. -/
theorem start_mem_record : ∃ other ∈ comment.record comments, other.start = comment.start := by
  induction comments with
  | nil => exact ⟨comment, List.mem_singleton_self _, rfl⟩
  | cons first rest ih =>
      unfold record
      split
      · exact ⟨comment, List.mem_cons_self, rfl⟩
      · split
        · rename_i same
          exact ⟨first, List.mem_cons_self, same.symm⟩
        · obtain ⟨other, member, same⟩ := ih
          exact ⟨other, List.mem_cons_of_mem _ member, same⟩

theorem record_sorted (sorted : comments.Pairwise (·.start < ·.start)) :
    (comment.record comments).Pairwise (·.start < ·.start) := by
  induction comments with
  | nil => exact List.pairwise_singleton _ _
  | cons first rest ih =>
      obtain ⟨ahead, later⟩ := List.pairwise_cons.mp sorted
      unfold record
      split
      · rename_i before
        refine List.pairwise_cons.mpr ⟨fun other member => ?_, sorted⟩
        rcases List.mem_cons.mp member with rfl | inRest
        · exact before
        · exact Nat.lt_trans before (ahead other inRest)
      · split
        · exact sorted
        · refine List.pairwise_cons.mpr ⟨fun other member => ?_, ih later⟩
          rcases mem_record member with rfl | inRest
          · omega
          · exact ahead other inRest

/-- Lists in text order are known by their members. -/
theorem eq_of_sorted {others : List Comment} (sorted : comments.Pairwise (·.start < ·.start))
    (sortedOthers : others.Pairwise (·.start < ·.start))
    (same : ∀ comment, comment ∈ comments ↔ comment ∈ others) : comments = others := by
  have nodup : ∀ {list : List Comment}, list.Pairwise (·.start < ·.start) → list.Nodup := by
    intro list sorted
    refine List.Pairwise.imp (fun {first second} before => ?_) sorted
    rintro rfl
    exact Nat.lt_irrefl _ before
  have perm := (List.perm_ext_iff_of_nodup (nodup sorted) (nodup sortedOthers)).mpr same
  exact perm.eq_of_pairwise (fun _ _ _ _ before behind => absurd before (Nat.lt_asymm behind)) sorted
    sortedOthers

end Comment

namespace Cursor

/-- The comments of a cursor are comments of its text, in text order. -/
structure Listed (cursor : Cursor) : Prop where
  genuine : ∀ comment ∈ cursor.comments,
    cursor.markers.commentAt? cursor.text comment.start = some comment
  sorted : cursor.comments.Pairwise (·.start < ·.start)

/-- No comment is forgotten. -/
structure Hears (before after : Cursor) : Prop where
  keeps : before.comments ⊆ after.comments
  listed : before.Listed → after.Listed

variable {cursor before mid after : Cursor}

theorem Hears.refl (cursor : Cursor) : cursor.Hears cursor := ⟨List.Subset.refl _, id⟩

theorem Hears.trans (left : before.Hears mid) (right : mid.Hears after) : before.Hears after :=
  ⟨List.Subset.trans left.keeps right.keeps, right.listed ∘ left.listed⟩

/-- Only the comments count. -/
theorem hears_of_same (text : after.text = before.text) (markers : after.markers = before.markers)
    (comments : after.comments = before.comments) : before.Hears after where
  keeps := by rw [comments]; exact List.Subset.refl _
  listed listed := ⟨by rw [text, markers, comments]; exact listed.genuine, by
    rw [comments]; exact listed.sorted⟩

/-- A comment is added to those that are listed. -/
theorem Listed.record {comment : Comment} {place : Nat} (listed : cursor.Listed)
    (found : cursor.markers.commentAt? cursor.text place = some comment) :
    ({ cursor with position := comment.stop, comments := comment.record cursor.comments } :
      Cursor).Listed ∧ comment ∈ comment.record cursor.comments := by
  have starts := CommentMarkers.start_of_commentAt found
  have genuine : ∀ other ∈ comment.record cursor.comments,
      cursor.markers.commentAt? cursor.text other.start = some other := by
    intro other member
    rcases Comment.mem_record member with rfl | old
    · rw [starts]
      exact found
    · exact listed.genuine other old
  refine ⟨⟨genuine, Comment.record_sorted listed.sorted⟩, ?_⟩
  obtain ⟨other, member, same⟩ := @Comment.start_mem_record comment cursor.comments
  have twice := genuine other member
  rw [same, starts, found] at twice
  exact Option.some.inj twice ▸ member

theorem skipGapWithin_keeps {pieces : Nat} {unclosed : Option Nat} :
    cursor.comments ⊆ (skipGapWithin pieces cursor unclosed).1.comments := by
  induction pieces generalizing cursor unclosed with
  | zero => exact List.Subset.refl _
  | succ pieces ih =>
      unfold skipGapWithin
      split
      · rename_i comment _
        exact List.Subset.trans Comment.subset_record
          (@ih { cursor with position := comment.stop, comments := comment.record cursor.comments } _)
      · split
        · exact @ih { cursor with position := cursor.position + 1 } _
        · exact List.Subset.refl _

theorem skipGapWithin_hears {pieces : Nat} {unclosed : Option Nat} (listed : cursor.Listed) :
    (skipGapWithin pieces cursor unclosed).1.Listed ∧
      ∀ comment, comment ∈ (skipGapWithin pieces cursor unclosed).1.comments ↔
        comment ∈ cursor.comments ∨
          comment ∈ cursor.markers.commentsWithin cursor.text pieces cursor.position := by
  induction pieces generalizing cursor unclosed with
  | zero => exact ⟨listed, fun comment => by simp [skipGapWithin, CommentMarkers.commentsWithin]⟩
  | succ pieces ih =>
      unfold skipGapWithin CommentMarkers.commentsWithin
      cases found : cursor.markers.commentAt? cursor.text cursor.position with
      | some first =>
          obtain ⟨listedNext, noted⟩ := listed.record found
          obtain ⟨listedLast, all⟩ := @ih _ (if first.closed then unclosed else some first.start) listedNext
          refine ⟨listedLast, fun comment => (all comment).trans ?_⟩
          have either : comment ∈ first.record cursor.comments ↔
              comment = first ∨ comment ∈ cursor.comments :=
            ⟨Comment.mem_record, fun member => member.elim (· ▸ noted) (Comment.subset_record ·)⟩
          rw [either, List.mem_cons, or_assoc, or_left_comm]
      | none =>
          dsimp only
          split
          · exact @ih { cursor with position := cursor.position + 1 } unclosed ⟨listed.genuine, listed.sorted⟩
          · exact ⟨listed, fun comment => by simp⟩

variable (cursor)

/-- Skipping a gap notes its comments and no other ones. -/
theorem mem_skipGap (listed : cursor.Listed) (comment : Comment) :
    comment ∈ cursor.skipGap.1.comments ↔
      comment ∈ cursor.comments ∨
        comment ∈ cursor.markers.commentsFrom cursor.text cursor.position :=
  (skipGapWithin_hears listed).2 comment

theorem hears_skipGap : cursor.Hears cursor.skipGap.1 where
  keeps := skipGapWithin_keeps
  listed listed := (skipGapWithin_hears listed).1

end Cursor

end ExprLang
