import ExprLang.Proofs.Tandem.Prolonged

/-!
Two texts with a separator between them. Up to the separator the parse is that of the first text, which
has no faults. There the root is given a token for the separator, and behind it the parse goes on like
that of the second text.
-/

namespace ExprLang

open Parse
open ParseState (Later)

namespace Tandem

variable {grammar : Grammar} {text behind other : Text} {row : List (Nat × Nat)} {c : Char}
  {forest forest' : Forest}

/-- Where nothing is moved the forests are the same. -/
theorem forest_of_still (mirror : (moved grammar text other id).Mirror forest forest') :
    forest' = forest := by
  have items : forest'.items = forest.items := by
    refine Array.ext_getElem? fun id => ?_
    have image : forest'.get? id = _ := get_moved mirror id
    simp only [id_eq, ite_self] at image
    exact image.trans (congrFun Option.map_id _)
  obtain ⟨items', ordered'⟩ := forest'
  obtain ⟨items, ordered⟩ := forest
  have same : ordered' = ordered := mirror.orderedOther.trans mirror.ordered.symm
  rw [same]
  exact congrArg (Forest.mk · ordered) ‹_›

/-- At the end of the text the other parse has the forest of the first one, and goes on. -/
theorem run_prolonged (stock : grammar.Stock) (separates : grammar.Separates c)
    (prolongs : Prolongs text other c) (tiled : grammar.Tiled text row)
    (ended : ∀ comment ∈ (grammar.finalState text).cursor.comments, comment.kind = .line →
      comment.stop < text.size)
    (looks : grammar.LooksBefore text) (clean : (grammar.finalState text).faults = []) :
    ∃ s passes, s.cursor.text = other ∧ s.cursor.markers = grammar.comments ∧
      s.cursor.position = text.size ∧ s.faults = [] ∧ s.forest = (grammar.finalState text).forest ∧
      s.cursor.remaining ≤ passes ∧
      grammar.rootLoop other.size (grammar.initialState other) =
        (addSeparator 0 text.size >>= fun _ =>
          rootStatements grammar (segment grammar (other.size + 1)) 0 passes) s := by
  have course := course_prolonged stock separates prolongs tiled ended looks
  obtain ⟨s, origin, closedByBlock, passes, landed, run⟩ := landed_moved stock course rfl clean
  have sameText : s.cursor.text = other := landed.other
  have position : s.cursor.position = text.size := by
    have sameFirst : (grammar.finalState text).cursor.text = text := landed.text
    have atEnd := Array.getElem?_eq_none_iff.mp landed.atEnd
    rw [sameFirst] at atEnd
    have inside := (bounded_of_rests tiled ended landed.rest).1
    exact landed.position.trans (Nat.le_antisymm inside atEnd)
  have faults := landed.faults
  rw [clean] at faults
  refine ⟨s, passes, sameText, landed.markersOther, position, List.forall₂_nil_left_iff.mp faults,
    forest_of_still landed.forest, landed.enough, ?_⟩
  rw [run, behindRoot_run, sameText, position, prolongs.next]
  simp only [behindRootAt, if_pos separates.separator.symm]

/-- What a separator at the beginning of a text leaves. -/
theorem addSeparator_first (grammar : Grammar) (text : Text) :
    ∃ t, addSeparator 0 0 (grammar.initialState text) = .ok () t ∧ t.faults = [] ∧
      t.forest.get? 0 =
        some { start := 0, length := 0, kind := .root [] [1], parts := { regular := [1] } } ∧
      t.forest.size = 2 ∧ t.forest.start 1 = 0 := ⟨_, rfl, rfl, rfl, rfl, rfl⟩

/-- A root with no parts but regular ones and children. -/
theorem all_of_isRoot {item : Item} (isRoot : item.IsRoot) : item.parts.all = item.parts.regular := by
  rw [isRoot.parts]
  simp [Parts.all]

/-- The separator has become the last part of the root, and the cursor stands behind it. -/
structure Separated (grammar : Grammar) (text behind : Text) (c : Char) (s u : ParseState) : Prop where
  whole : u.cursor.text = (text ++ #[c]) ++ behind
  markers : u.cursor.markers = grammar.comments
  position : u.cursor.position = (text ++ #[c]).size
  faults : u.faults = []
  linked : u.forest.Linked
  ordered : u.forest.ordered = true
  root : ∃ root, u.forest.get? 0 = some root ∧ root.IsRoot ∧ root.start = 0 ∧ root.length = 0
  before : ∀ part ∈ (u.forest.parts 0).all, u.forest.start part < (text ++ #[c]).size
  children : (u.forest.parts 0).children = (s.forest.parts 0).children
  size : s.forest.size ≤ u.forest.size
  earlier : ∀ id, id ≠ 0 → id < s.forest.size → u.forest.get? id = s.forest.get? id

/-- A parse comes without faults to a separator, and holds nothing but the root. -/
structure Arrived (grammar : Grammar) (text : Text) (c : Char) (behind : Text) (s : ParseState) : Prop where
  whole : s.cursor.text = text ++ (#[c] ++ behind)
  markers : s.cursor.markers = grammar.comments
  position : s.cursor.position = text.size
  faults : s.faults = []
  linked : s.forest.Linked
  ordered : s.forest.ordered = true
  root : ∃ root, s.forest.get? 0 = some root ∧ root.IsRoot ∧ root.start = 0 ∧ root.length = 0
  before : ∀ part ∈ (s.forest.parts 0).all, s.forest.start part < text.size

variable {s : ParseState}

/-- The separator is noted as at the beginning of a text. -/
theorem run_addSeparator (stock : grammar.Stock) (separates : grammar.Separates c)
    (arrived : Arrived grammar text c behind s) :
    ∃ u, addSeparator 0 text.size s = .ok () u ∧ Separated grammar text behind c s u := by
  let W := shifted grammar id text (#[c] ++ behind) s.forest
  have lawful : W.Lawful := (course_shifted stock (Grammar.refolds_id grammar)).lawful
  have heading : W.Heading fun t => t.faults = [] := by
    refine ⟨fun grown none => List.prefix_nil.mp (none ▸ grown.faults), fun none fault member => ?_,
      fun none _ => none, fun _ _ _ _ _ _ => trivial⟩
    rw [none] at member
    cases member
  obtain ⟨root, found, isRoot, start, length⟩ := arrived.root
  have mirror : W.Mirror (grammar.initialState (#[c] ++ behind)).forest s.forest :=
    mirror_initial found isRoot start length arrived.linked arrived.ordered
  have fold : (#[c] ++ behind).map W.fold = #[c] ++ behind := Array.map_id _
  have first : (#[c] ++ behind)[0]? = some c := Array.getElem?_append_left Nat.one_pos
  have beside : W.Beside (grammar.initialState (#[c] ++ behind)) s := by
    refine ⟨⟨rfl, ?_, rfl, arrived.markers, mirror, ?_⟩, Nat.zero_le _, ?_⟩
    · exact arrived.whole.trans (congrArg (text ++ ·) fold.symm)
    · rw [arrived.faults]
      exact .nil
    · exact arrived.position.trans (Nat.zero_add _).symm
  have front : W.front 0 := by
    refine ⟨Nat.zero_le _, CommentMarkers.commentAt_of_char first separates.unmarked, ?_⟩
    rw [Text.isBlankAt, first, Option.any_some]
    exact (stock.separator c separates.separator).2.2
  have founded : W.Founded := ⟨arrived.linked, fun part member place _ =>
    Nat.lt_of_lt_of_le (arrived.before part member) (Nat.le_add_left _ _)⟩
  obtain ⟨t, run, none, foundFirst, two, starts⟩ := addSeparator_first grammar (#[c] ++ behind)
  have lock : W.Locked _ _ (grammar.initialState (#[c] ++ behind)) s (addSeparator 0 0)
      (addSeparator (W.rename 0) text.size) _ := lock_addSeparator lawful heading fun _ =>
    ⟨beside, front, rfl, arrived.position.symm, Or.inr ⟨rfl, founded⟩,
      (Array.getElem?_eq_some_iff.mp first).1⟩
  obtain ⟨_, reaches⟩ := lock.of_ok run
  obtain ⟨u, run', beside', moved⟩ := reaches none trivial
  refine ⟨u, run', ?_⟩
  have faults := beside'.faults
  rw [none] at faults
  obtain ⟨rootT, image, foundT, foundU, alike⟩ := beside'.forest.root
  obtain rfl := Option.some.inj (foundT.symm.trans foundFirst)
  have isRootU := alike.isRootOther
  obtain ⟨_, rootS, foundS, _, rfl⟩ := alike
  obtain rfl : root = rootS := Option.some.inj (found.symm.trans foundS)
  refine ⟨?_, beside'.markersOther, ?_, List.forall₂_nil_left_iff.mp faults, beside'.forest.linkedOther,
    beside'.forest.orderedOther, ⟨_, foundU, isRootU, rfl, rfl⟩, ?_, ?_, ?_, beside'.forest.earlier⟩
  · refine beside'.other.trans ?_
    change text ++ (#[c] ++ behind).map id = _
    simp
  · rw [beside'.position, Array.size_append]
    change t.cursor.position + text.size = text.size + 1
    rw [moved]
    exact Nat.add_comm 1 text.size
  · have all : (u.forest.parts 0).all = (s.forest.parts 0).all ++ [W.rename 1] := by
      rw [Forest.parts_of_get foundU, all_of_isRoot isRootU, Forest.parts_of_get found,
        all_of_isRoot isRoot]
      rfl
    intro part member
    rw [Array.size_append]
    rw [all] at member
    rcases List.mem_append.mp member with old | new
    · have notRoot : part ≠ 0 := fun isZero => mirror.linkedOther.not_owned
        ((Forest.parent_of_get found).trans isRoot.free) (isZero ▸ old : s.forest.Owns 0 0)
      have same := beside'.forest.start_earlier arrived.linked notRoot (arrived.linked.part_lt_size old)
      rw [same]
      exact Nat.lt_of_lt_of_le (arrived.before part old) (Nat.le_add_right _ _)
    · rw [List.mem_singleton.mp new,
        (beside'.forest.start_rename Nat.one_ne_zero (two ▸ Nat.one_lt_two)).1]
      change t.forest.start 1 + text.size < text.size + 1
      omega
  · rw [Forest.parts_of_get foundU, Forest.parts_of_get found]
    exact List.append_nil _
  · have size := beside'.forest.size
    have positive := Forest.get_lt_size found
    change u.forest.size = t.forest.size + (s.forest.size - 1) at size
    omega

/-- Behind the separator the parse is that of the text behind it alone. -/
theorem run_composed {passes depth : Nat} (stock : grammar.Stock) (separates : grammar.Separates c)
    (arrived : Arrived grammar text c behind s) (enough : s.cursor.remaining ≤ passes)
    (deep : s.cursor.remaining ≤ depth) :
    ∃ u t, Separated grammar text behind c s u ∧
      (shifted grammar id (text ++ #[c]) behind u.forest).Near (grammar.finalState behind) t ∧
      ((addSeparator 0 text.size >>= fun _ =>
          rootStatements grammar (segment grammar depth) 0 passes) s = .ok () t ∨
        ∃ error, (addSeparator 0 text.size >>= fun _ =>
          rootStatements grammar (segment grammar depth) 0 passes) s = .error error t) := by
  obtain ⟨u, run, separated⟩ := run_addSeparator stock separates arrived
  obtain ⟨root, found, isRoot, start, length⟩ := separated.root
  have closer : u.cursor.remaining < s.cursor.remaining := by
    rw [Cursor.remaining, Cursor.remaining, separated.whole, separated.position, arrived.whole,
      arrived.position]
    simp only [Array.size_append, List.size_toArray, List.length_singleton]
    omega
  obtain ⟨t, near, ends⟩ := run_shifted stock (Grammar.refolds_id grammar)
    (separated.whole.trans (congrArg (_ ++ ·) (Array.map_id _).symm)) separated.markers separated.position
    separated.faults found isRoot start length separated.linked separated.ordered separated.before
    (⟨Nat.lt_of_lt_of_le closer enough, Nat.lt_of_lt_of_le closer deep⟩ :
      u.cursor.remaining < passes ∧ u.cursor.remaining < depth)
  refine ⟨u, t, separated, near, ?_⟩
  rw [bind_run, run]
  exact ends

/-! Whole parses -/

/-- The statements of a parse without faults stand inside the text. -/
theorem parts_inside (stock : grammar.Stock) (clean : (grammar.finalState text).faults = []) :
    ∀ part ∈ ((grammar.finalState text).forest.parts 0).all,
      (grammar.finalState text).forest.start part < text.size := by
  obtain ⟨root, found, isRoot, _⟩ := root_finalState stock text
  rcases @Grammar.finalState_cases grammar False stock.named False.elim text
    (Grammar.tidy_of_plain stock.plain text) with ⟨_, rooted, atEnd⟩ | ⟨critical, _⟩
  · obtain ⟨held, isHeld, standing⟩ := rooted.standing
    intro part owns
    have covers := Forest.span_of_part standing.sound.linked standing.sound.laid owns
    have listed : 0 ∈ Held.ids [held] := by simp [Held.ids, isHeld]
    have within := (standing.placed.inside_id listed).2
    have firm := (standing.sound.firm 0 part owns).resolve_right (by
      rintro ⟨category, trigger, name, accepts, isCustom⟩
      obtain ⟨statements, separators, kind⟩ := isRoot.kind
      rw [Forest.kind_of_get found, kind] at isCustom
      cases isCustom)
    omega
  · rw [clean] at critical
    cases critical

/-- A parse over a separator has the items of the first text, and mirrors the parse of the second. -/
theorem near_composed (stock : grammar.Stock) (separates : grammar.Separates c)
    (tiled : grammar.Tiled text row)
    (ended : ∀ comment ∈ (grammar.finalState text).cursor.comments, comment.kind = .line →
      comment.stop < text.size)
    (looks : grammar.LooksBefore text) (clean : (grammar.finalState text).faults = []) :
    ∃ s u, s.forest = (grammar.finalState text).forest ∧ Separated grammar text behind c s u ∧
      (shifted grammar id (text ++ #[c]) behind u.forest).Near (grammar.finalState behind)
        (grammar.finalState (text ++ (#[c] ++ behind))) := by
  have prolongs : Prolongs text (text ++ (#[c] ++ behind)) c := by
    refine ⟨fun p less => Array.getElem?_append_left less, ?_⟩
    rw [Array.getElem?_append_right (Nat.le_refl _), Nat.sub_self]
    exact Array.getElem?_append_left Nat.one_pos
  obtain ⟨s, passes, sameText, markers, position, faults, forest, enough, run⟩ :=
    run_prolonged stock separates prolongs tiled ended looks clean
  have alone := (near_folded stock (Grammar.refolds_id grammar) text).forest
  have arrived : Arrived grammar text c behind s := by
    refine ⟨sameText, markers, position, faults, ?_, ?_, ?_, ?_⟩ <;> rw [forest]
    · exact alone.linked
    · exact alone.ordered
    · exact root_finalState stock text
    · exact parts_inside stock clean
  have deep : s.cursor.remaining ≤ (text ++ (#[c] ++ behind)).size + 1 := by
    rw [Cursor.remaining, sameText]
    exact Nat.le_succ_of_le (Nat.sub_le _ _)
  obtain ⟨u, t, separated, near, ends⟩ := run_composed stock separates arrived enough deep
  have final : grammar.finalState (text ++ (#[c] ++ behind)) = t := by
    rcases ends with finished | ⟨error, stopped⟩
    · exact grammar.finalState_of_ok (run.trans finished)
    · exact grammar.finalState_of_error (run.trans stopped)
  rw [final]
  exact ⟨s, u, forest, separated, near⟩

end Tandem

end ExprLang
