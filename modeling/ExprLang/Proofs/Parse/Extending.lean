import ExprLang.Proofs.Parse.Modifying
import ExprLang.Proofs.Parse.Scripts

/-!
Custom expressions. An extension is tidy if an attempt that gives an expression lists all that it
made and that has no owner, in text order. What else it lists was there before it was called and
stands in front of it, so it is refused.
-/

namespace ExprLang

open Held (item hollow word ids)

def CustomPart.item : CustomPart → ItemId
  | .token id | .child id => id

namespace ParseState

/-- The parts are all that was made and has no owner, in text order. -/
structure Listed (s t : ParseState) (parts : List CustomPart) : Prop where
  all : ∀ id, Made s t id → id ∈ parts.map CustomPart.item
  ordered : (parts.map CustomPart.item).Pairwise fun a b =>
    Made s t a → Made s t b → a ≠ b → t.forest.start a < t.forest.start b

/-- A state in which an extension is called. -/
structure Called (grammar : Grammar) (extension : Extension) (trigger : Trigger) (s : ParseState) :
    Prop where
  ready : s.Ready grammar False
  offered : extension ∈ grammar.extensionsFor trigger.keyword
  token : s.forest.tokenKind? trigger.token = some (.keyword trigger.keyword)
  free : s.forest.parent? trigger.token = none
  latest : ∀ id, s.forest.start id ≤ s.forest.start trigger.token

end ParseState

open ParseState

/-- The extensions account for what they make. Segments inside an expression are parsed as deep as
the rest of the text allows. -/
def Grammar.Tidy (grammar : Grammar) (text : Text) : Prop :=
  ∀ depth extension trigger s, Called grammar extension trigger s → s.cursor.text = text →
    s.cursor.remaining < depth → ∀ parts t,
      Script.steps grammar (Parse.segment grammar depth) extension trigger [] extension.steps s =
        .ok parts t → Listed s t parts

namespace ParseState

variable {grammar : Grammar} {full : Prop} {base s t u : ParseState} {left : List Held}
  {keywords taken : List Nat} {kind : ItemKind} {start : Nat}

/-- A custom expression behind `left` that has its keywords and some of what was made between `s` and
`t`. -/
structure Gathering (s t u : ParseState) (kind : ItemKind) (start : Nat)
    (keywords taken : List Nat) : Prop where
  grafted : Forest.Grafted (t.forest.create kind start).2 u.forest t.forest.size (keywords ++ taken)
  cursor : u.cursor = t.cursor
  logged : t.faults <+: u.faults
  made : ∀ id ∈ taken, Made s t id
  upTo : (u.forest.parts t.forest.size).upTo .regular = keywords ++ taken
  beyond : (u.forest.parts t.forest.size).beyond .regular = []
  noPrefixes : (u.forest.parts t.forest.size).prefixes = []

/-- What stood there when a new item was made stands there still. -/
theorem created_old (start : Nat) (sound : t.forest.Sound) (complex : kind.isToken = false) {id : Nat}
    (inside : id < t.forest.size) :
    (t.forest.create kind start).2.get? id = t.forest.get? id ∧
      (t.forest.create kind start).2.start id = t.forest.start id ∧
      (t.forest.create kind start).2.stop id = t.forest.stop id := by
  rw [Forest.create_complex complex]
  exact ⟨Forest.get_push_old _ inside, Forest.spans_push_old sound.linked rfl rfl inside⟩

theorem sound_created (littered : Littered s t) (complex : kind.isToken = false) :
    (t.forest.create kind start).2.Sound := by
  rw [Forest.create_complex complex]
  exact Forest.sound_push littered.sound rfl rfl

/-- Neither what was made since `s` nor the new item moves what stood there before. -/
theorem spans_created (start : Nat) (sound : s.forest.Sound) (littered : Littered s t)
    (complex : kind.isToken = false) {id : Nat} (old : id < s.forest.size) :
    (t.forest.create kind start).2.start id = s.forest.start id ∧
      (t.forest.create kind start).2.stop id = s.forest.stop id := by
  obtain ⟨_, startsOld, stopsOld⟩ :=
    created_old start littered.sound complex (Nat.lt_of_lt_of_le old littered.size)
  obtain ⟨startsThere, stopsThere⟩ := littered.toKept.spans_old sound old
  exact ⟨startsOld.trans startsThere, stopsOld.trans stopsThere⟩

namespace Gathering

variable (gathering : Gathering s t u kind start keywords taken)
  (standing : Standing grammar full base s (left ++ keywords.map item)) (littered : Littered s t)
  (complex : kind.isToken = false)

include gathering standing littered complex

omit standing littered in
theorem size : u.forest.size = t.forest.size + 1 := by
  rw [gathering.grafted.size, Forest.create_complex complex, Forest.size_push]

omit standing in
theorem spans {id : Nat} (inside : id < t.forest.size) :
    u.forest.start id = t.forest.start id ∧ u.forest.stop id = t.forest.stop id := by
  obtain ⟨starts, stops⟩ := gathering.grafted.spans id (Nat.ne_of_lt inside)
  obtain ⟨_, startsOld, stopsOld⟩ := created_old start littered.sound complex inside
  exact ⟨starts.trans startsOld, stops.trans stopsOld⟩

omit standing in
theorem parent {id : Nat} (inside : id < t.forest.size) :
    u.forest.parent? id = if id ∈ keywords ++ taken then some t.forest.size else t.forest.parent? id := by
  rw [gathering.grafted.parent]
  simp only [Forest.parent?, (created_old start littered.sound complex inside).1]

omit gathering littered complex in
theorem keyword {id : Nat} (member : id ∈ keywords) : Made base s id := by
  refine (standing.held id).mp ?_
  rw [Held.ids_append, Held.ids_map_item]
  exact List.mem_append_right _ member

omit complex in
theorem old {id : Nat} (member : id ∈ keywords ++ taken) : id < t.forest.size := by
  have sizes := littered.size
  rcases List.mem_append.mp member with isKeyword | isTaken
  · have inside := (keyword standing isKeyword).2.1
    omega
  · exact (gathering.made id isTaken).2.1

theorem free : u.forest.parent? t.forest.size = none := by
  have notAdded : t.forest.size ∉ keywords ++ taken := fun member =>
    Nat.lt_irrefl _ (gathering.old standing littered member)
  rw [gathering.grafted.parent, if_neg notAdded, Forest.create_complex complex, Forest.parent?,
    Forest.get_push_new]
  rfl

theorem kept : Kept base u where
  text := by
    rw [gathering.cursor]
    exact littered.text.trans standing.text
  markers := by
    rw [gathering.cursor]
    exact littered.markers.trans standing.markers
  sound := gathering.grafted.sound
  size := by
    have first := standing.size
    have second := littered.size
    have third := gathering.size complex
    omega
  old id inside := by
    have first := standing.size
    have second := littered.size
    have notAdded : id ∉ keywords ++ taken := by
      intro member
      rcases List.mem_append.mp member with isKeyword | isTaken
      · have new := (keyword standing isKeyword).1
        omega
      · have new := (gathering.made id isTaken).1
        omega
    rw [gathering.grafted.same id (by omega) notAdded]
    rw [(created_old start littered.sound complex (by omega)).1, littered.old id (by omega)]
    exact standing.old id inside
  logged := (standing.logged.trans littered.logged).trans gathering.logged
  heard := by
    rw [gathering.cursor]
    exact standing.heard.trans littered.heard

/-- What has no owner now: what stood in front, the custom expression, and what it has not taken. -/
theorem cases_made {id : Nat} (made : Made base u id) :
    id ∈ ids (left ++ [item t.forest.size]) ∨ Made s t id ∧ id ∉ taken := by
  obtain ⟨new, inside, free⟩ := made
  rw [gathering.size complex] at inside
  by_cases isCustom : id = t.forest.size
  · left
    simp [isCustom]
  · have known : id < t.forest.size := by omega
    rw [gathering.parent littered complex known] at free
    split at free
    · cases free
    · rename_i notAdded
      have notKeyword : id ∉ keywords := fun member => notAdded (List.mem_append_left _ member)
      by_cases old : id < s.forest.size
      · rw [littered.toKept.parent_old old] at free
        have held := (standing.held id).mpr ⟨new, old, free⟩
        rw [Held.ids_append, Held.ids_map_item] at held
        left
        rw [Held.ids_append]
        exact List.mem_append_left _ ((List.mem_append.mp held).resolve_right notKeyword)
      · exact Or.inr ⟨⟨Nat.le_of_not_lt old, known, free⟩,
          fun member => notAdded (List.mem_append_right _ member)⟩

/-- What it has taken so far stands in the row where the keywords stood. -/
theorem row (begins : keywords.head?.map s.forest.start = some start) {b : Nat}
    (reached : s.cursor.position ≤ b) (behind : ∀ id ∈ taken, t.forest.stop id ≤ b) :
    u.forest.Row base.cursor.position (left ++ [item t.forest.size]) b := by
  obtain ⟨first, isFirst, starts⟩ := Option.map_eq_some_iff.mp begins
  have firstMember := List.mem_of_mem_head? isFirst
  obtain ⟨m, ahead, among⟩ := Forest.row_append.mp standing.placed
  have here := among.inside (List.mem_map_of_mem (f := item) firstMember)
  have sizes := littered.size
  have known : ∀ {id : Nat}, id ∈ ids left ++ keywords → id < s.forest.size := by
    intro id member
    refine standing.size_pos_of_mem ?_
    rwa [Held.ids_append, Held.ids_map_item]
  have same : ∀ {id : Nat}, id ∈ keywords →
      (t.forest.create kind start).2.start id = s.forest.start id ∧
        (t.forest.create kind start).2.stop id = s.forest.stop id := fun isKeyword =>
    spans_created start standing.sound littered complex (known (List.mem_append_right _ isKeyword))
  refine Forest.row_append.mpr ⟨m, ?_, ?_⟩
  -- What is held in front has not moved.
  · have there : t.forest.Row base.cursor.position left m := by
      refine ahead.congr fun held member => littered.toKept.stands_old standing.sound ?_
      intro id isId
      exact known (List.mem_append_left _ (List.mem_filterMap.mpr ⟨held, member, isId⟩))
    have created : (t.forest.create kind start).2.Row base.cursor.position left m := by
      rw [Forest.create_complex complex]
      refine Forest.row_push littered.sound.linked rfl rfl there fun id member => ?_
      exact Nat.lt_of_lt_of_le (known (List.mem_append_left _ member)) sizes
    refine gathering.grafted.row created fun id member => ?_
    have old := known (List.mem_append_left _ member)
    omega
  -- The new item reaches from its first keyword to the last part.
  · obtain ⟨startsHere, stands⟩ := Forest.stands_create littered.sound.linked complex start
    refine gathering.grafted.row_owner (sound_created littered complex) ?_ ?_ ?_
    · rw [stands.2.1, startsHere]
      have inside := Forest.start_le_stop_of_stands here.2.1
      rw [← starts]
      exact ⟨here.1, Nat.le_trans inside (Nat.le_trans here.2.2 reached)⟩
    · intro part member
      rcases List.mem_append.mp member with isKeyword | isTaken
      · obtain ⟨first, _, last⟩ := among.inside (List.mem_map_of_mem (f := item) isKeyword)
        rw [(same isKeyword).1, (same isKeyword).2]
        exact ⟨first, Nat.le_trans last reached⟩
      · obtain ⟨new, inside, _⟩ := gathering.made part isTaken
        obtain ⟨_, startsOld, stopsOld⟩ :=
          created_old start littered.sound complex inside
        rw [startsOld, stopsOld]
        have further := (littered.within part new inside).1
        have before := among.le
        exact ⟨by omega, behind part isTaken⟩
    · refine ⟨first, List.mem_append_left _ firstMember, ?_⟩
      rw [(same firstMember).1, (same firstMember).2]
      exact here.2.1

variable (begins : keywords.head?.map s.forest.start = some start)

include begins

/-- If it stops here it leaves no more behind than the attempt did. -/
theorem littered_base (ahead : ∀ x ∈ taken, ∀ y, Made s t y → y ∉ taken →
    t.forest.stop x ≤ t.forest.start y) : Littered base u := by
  have moved := littered.moved
  have taken_le : ∀ id ∈ taken, t.forest.stop id ≤ t.cursor.position := fun id member => by
    obtain ⟨new, inside, _⟩ := gathering.made id member
    exact (littered.within id new inside).2
  have placed := gathering.row standing littered complex begins moved taken_le
  refine ⟨gathering.kept standing littered complex, ?_, ?_, ?_, ?_⟩
  · intro id new inside
    rw [gathering.size complex] at inside
    rw [gathering.cursor]
    by_cases isCustom : id = t.forest.size
    · exact placed.inside_id (by simp [isCustom])
    · have known : id < t.forest.size := by omega
      obtain ⟨starts, stops⟩ := gathering.spans littered complex known
      have within := (standing.littered.trans littered).within id new known
      rwa [starts, stops]
  · intro x y madeX madeY different
    have across : ∀ {x y : Nat}, x ∈ ids (left ++ [item t.forest.size]) → Made s t y → y ∉ taken →
        u.forest.stop x ≤ u.forest.start y := by
      intro x y inX madeY notTaken
      obtain ⟨starts, _⟩ := gathering.spans littered complex madeY.2.1
      have further := (littered.within y madeY.1 madeY.2.1).1
      rw [starts]
      refine (gathering.row standing littered complex begins further ?_).inside_id inX |>.2
      exact fun id member => ahead id member y madeY notTaken
    rcases gathering.cases_made standing littered complex madeX with inX | ⟨newX, notX⟩
    · rcases gathering.cases_made standing littered complex madeY with inY | ⟨newY, notY⟩
      · exact placed.apart inX inY different
      · exact Or.inl (across inX newY notY)
    · rcases gathering.cases_made standing littered complex madeY with inY | ⟨newY, notY⟩
      · exact Or.inr (across inY newX notX)
      · obtain ⟨startX, stopX⟩ := gathering.spans littered complex newX.2.1
        obtain ⟨startY, stopY⟩ := gathering.spans littered complex newY.2.1
        rw [startX, stopX, startY, stopY]
        exact littered.apart x y newX newY different
  · rw [gathering.cursor]
    exact Nat.le_trans standing.littered.moved moved
  · rw [gathering.cursor]
    exact littered.inside

/-- Once it has taken everything it stands in the row. -/
theorem standing_base (idle : ¬ full) (all : ∀ id, Made s t id → id ∈ taken) :
    Standing grammar full base u (left ++ [item t.forest.size]) := by
  have sizes := littered.size
  have moved := littered.moved
  have taken_le : ∀ id ∈ taken, t.forest.stop id ≤ t.cursor.position := fun id member => by
    obtain ⟨new, inside, _⟩ := gathering.made id member
    exact (littered.within id new inside).2
  have once := standing.once
  rw [Held.ids_append, Held.ids_map_item] at once
  have known : ∀ {id : Nat}, id ∈ ids left → Made base s id := by
    intro id member
    refine (standing.held id).mp ?_
    rw [Held.ids_append]
    exact List.mem_append_left _ member
  refine ⟨⟨⟨gathering.kept standing littered complex, standing.ready, ?_, ?_, ?_, ?_, ?_⟩, ?_⟩, ?_⟩
  -- What is held: the row in front and the new item, since all that was made is in it.
  · intro id
    constructor
    · intro member
      rw [Held.ids_append] at member
      have size := gathering.size complex
      rcases List.mem_append.mp member with inLeft | isCustom
      · obtain ⟨new, inside, free⟩ := known inLeft
        have notAdded : id ∉ keywords ++ taken := by
          intro added
          rcases List.mem_append.mp added with isKeyword | isTaken
          · exact (List.nodup_append.mp once).2.2 id inLeft id isKeyword rfl
          · have later := (gathering.made id isTaken).1
            omega
        refine ⟨new, by omega, ?_⟩
        rw [gathering.parent littered complex (by omega), if_neg notAdded]
        exact (littered.toKept.parent_old inside).trans free
      · obtain rfl : id = t.forest.size := by simpa using isCustom
        have first := standing.size
        exact ⟨by omega, by omega, gathering.free standing littered complex⟩
    · intro made
      rcases gathering.cases_made standing littered complex made with inRow | ⟨new, notTaken⟩
      · exact inRow
      · exact absurd (all id new) notTaken
  · rw [Held.ids_append]
    refine List.nodup_append.mpr ⟨(List.nodup_append.mp once).1, by simp, ?_⟩
    intro id inLeft other isCustom
    obtain rfl : other = t.forest.size := by simpa using isCustom
    have inside := (known inLeft).2.1
    omega
  · exact fun strict => absurd strict idle
  · exact fun strict => absurd strict idle
  · exact fun strict => absurd strict idle
  · rw [gathering.cursor]
    exact gathering.row standing littered complex begins moved taken_le
  · rw [gathering.cursor]
    exact littered.inside

omit begins in
/-- It takes one more. What is accepted was made by the attempt, since it starts behind the
keywords. -/
theorem accepted {part last : Nat} {isChild : Bool} {next : Forest}
    (custom : ∃ category trigger name accepts, kind = .custom category trigger name accepts)
    (isLast : keywords.getLast? = some last)
    (latest : ∀ id, s.forest.start id ≤ s.forest.start last)
    (attached : u.forest.attach t.forest.size part .regular isChild = .ok next) :
    Made s t part ∧ Gathering s t (u.withForest next) kind start keywords (taken ++ [part]) := by
  have sizes := littered.size
  have size := gathering.size complex
  obtain ⟨rfl, attachable, further⟩ := Forest.attachable_of_ok gathering.grafted.sound.ordered
    (gathering.free standing littered complex) attached
  have insideOwner : t.forest.size < u.forest.size := by omega
  have inside : part < t.forest.size := by
    have inside := attachable.inside
    have different := attachable.different
    omega
  have free := attachable.free
  rw [gathering.parent littered complex inside] at free
  split at free
  · cases free
  rename_i notAdded
  have isKeyword := List.mem_of_getLast? isLast
  obtain ⟨_, lastKnown, _⟩ := keyword standing isKeyword
  have lastInside : s.forest.stop last ≤ s.cursor.position := standing.stop_le last
  have proper := Forest.start_le_stop standing.sound.linked standing.sound.laid last
  -- Where the last of the parts starts.
  obtain ⟨final, isFinal⟩ := Option.ne_none_iff_exists'.mp
    (mt List.getLast?_eq_none_iff.mp (List.ne_nil_of_mem
      (List.mem_append_left taken isKeyword)))
  have behind := further final (gathering.upTo ▸ isFinal)
  obtain ⟨starts, stops⟩ := gathering.spans littered complex inside
  have finalMember := List.mem_of_getLast? isFinal
  obtain ⟨startsFinal, stopsFinal⟩ := gathering.spans littered complex
    (gathering.old standing littered finalMember)
  have finalCases : final = last ∨ final ∈ taken := by
    rw [List.getLast?_append] at isFinal
    cases lastTaken : taken.getLast? with
    | none =>
        left
        simpa [lastTaken, isLast, eq_comm] using isFinal
    | some other =>
        right
        obtain rfl : other = final := by simpa [lastTaken] using isFinal
        exact List.mem_of_getLast? lastTaken
  have lastThere := littered.toKept.spans_old standing.sound lastKnown
  -- An older item would have to start behind the last keyword, and none does.
  have new : s.forest.size ≤ part := by
    by_contra notNew
    have known := Nat.lt_of_not_le notNew
    have partThere := (littered.toKept.spans_old standing.sound known).1
    have early := latest part
    rcases finalCases with rfl | isTaken
    · omega
    · obtain ⟨newFinal, insideFinal, _⟩ := gathering.made final isTaken
      have within := (littered.within final newFinal insideFinal).1
      omega
  have made : Made s t part := ⟨new, inside, free⟩
  have before : u.forest.Before final part := by
    refine ⟨behind, ?_⟩
    rw [stopsFinal, starts]
    rw [startsFinal, starts] at behind
    have within := (littered.within part new inside).1
    rcases finalCases with rfl | isTaken
    · omega
    · have madeFinal := gathering.made final isTaken
      have properPart := Forest.start_le_stop littered.sound.linked littered.sound.laid part
      have different : final ≠ part := by
        rintro rfl
        exact Nat.lt_irrefl _ behind
      rcases littered.apart final part madeFinal made different with apart | apart <;> omega
  have fits : u.forest.Fits t.forest.size part .regular := by
    refine ⟨fun other isOther => ?_, fun other isOther => ?_⟩
    · rw [gathering.upTo] at isOther
      obtain rfl : final = other := Option.some.inj (isFinal.symm.trans isOther)
      exact before
    · rw [gathering.beyond] at isOther
      cases isOther
  have isCustom : u.forest.IsCustom t.forest.size := by
    obtain ⟨category, trigger, name, accepts, rfl⟩ := custom
    refine gathering.grafted.isCustom.mpr ⟨category, trigger, name, accepts, ?_⟩
    rw [Forest.create_complex complex, Forest.kind?, Forest.get_push_new]
    rfl
  refine ⟨made, ?_, gathering.cursor, gathering.logged, ?_, ?_, ?_, ?_⟩
  · rw [← List.append_assoc]
    exact gathering.grafted.link attachable (fun _ => rfl) fits (Or.inr isCustom)
  · intro id member
    rcases List.mem_append.mp member with isTaken | isPart
    · exact gathering.made id isTaken
    · rw [List.mem_singleton.mp isPart]
      exact made
  · rw [← List.append_assoc, ← gathering.upTo]
    exact Forest.upTo_link insideOwner
  · exact (Forest.beyond_link insideOwner).trans gathering.beyond
  · have same := Forest.get_link_of_ne part isChild insideOwner
      (show Section.prefixes ≠ .regular by simp)
    exact same.trans gathering.noPrefixes

end Gathering

/-! Attempts -/

/-- The parser is back where it was, and some faults have come. -/
structure Rewound (s t : ParseState) : Prop where
  forest : t.forest = s.forest
  position : t.cursor.position = s.cursor.position
  text : t.cursor.text = s.cursor.text
  markers : t.cursor.markers = s.cursor.markers
  logged : s.faults <+: t.faults
  heard : s.cursor.Hears t.cursor

theorem Rewound.refl (s : ParseState) : Rewound s s :=
  ⟨rfl, rfl, rfl, rfl, List.prefix_refl _, .refl _⟩

theorem Rewound.trans (first : Rewound s t) (second : Rewound t u) : Rewound s u where
  forest := second.forest.trans first.forest
  position := second.position.trans first.position
  text := second.text.trans first.text
  markers := second.markers.trans first.markers
  logged := first.logged.trans second.logged
  heard := first.heard.trans second.heard

/-- A cut undoes an attempt. -/
theorem Littered.rewound (littered : Littered s t) (sound : s.forest.Sound)
    (inside : s.cursor.position ≤ s.cursor.text.size) :
    Rewound s { t with
      cursor := t.cursor.moveTo s.cursor.position
      forest := t.forest.truncate s.forest.size } where
  forest := Forest.truncate_restores sound.linked littered.sound.linked littered.size
    (littered.sound.ordered.trans sound.ordered.symm) littered.old
  position := by
    simp only [Cursor.moveTo, littered.text]
    exact Nat.min_eq_left inside
  text := littered.text
  markers := littered.markers
  logged := littered.logged
  heard := littered.heard.trans (Cursor.hears_of_same rfl rfl rfl)

variable {row : List Held}

/-- Less is asked of a parse that is not strict. -/
theorem Ready.loosen (ready : s.Ready grammar full) : s.Ready grammar False :=
  ⟨ready.sound, ready.markers, ready.inside, ready.behind, ready.listed, False.elim, False.elim⟩

theorem Standing.rewound (idle : ¬ full) (standing : Standing grammar full base s row)
    (rewound : Rewound s t) : Standing grammar full base t row := by
  obtain ⟨forest, position, text, markers, logged, heard⟩ := rewound
  refine ⟨⟨⟨⟨text.trans standing.text, markers.trans standing.markers, ?_, ?_, ?_, ?_, ?_⟩,
    standing.ready, ?_, standing.once, ?_, ?_, ?_⟩, ?_⟩, ?_⟩
  · exact forest ▸ standing.sound
  · exact forest ▸ standing.size
  · exact forest ▸ standing.old
  · exact standing.logged.trans logged
  · exact standing.heard.trans heard
  · exact forest ▸ standing.held
  · exact fun strict => absurd strict idle
  · exact fun strict => absurd strict idle
  · exact fun strict => absurd strict idle
  · rw [forest, position]
    exact standing.placed
  · rw [position, text]
    exact standing.within

theorem Standing.declined (standing : Standing grammar full base s row) (rewound : Rewound s t)
    (strict : full → t = s) : Standing grammar full base t row := by
  by_cases isStrict : full
  · rw [strict isStrict]
    exact standing
  · exact standing.rewound isStrict rewound

/-- The trigger is the last thing that was made. -/
theorem Standing.latest {before : List Nat} {token : Nat} {tokenKind : TokenKind}
    (standing : Standing grammar full base s (left ++ (before ++ [token]).map item))
    (isToken : s.forest.tokenKind? token = some tokenKind) (id : Nat) :
    s.forest.start id ≤ s.forest.start token := by
  have linked := standing.sound.linked
  have laid := standing.sound.laid
  have row : left ++ (before ++ [token]).map item = (left ++ before.map item) ++ [item token] := by
    simp
  have placed := standing.placed
  rw [row] at placed
  obtain ⟨m, ahead, behind⟩ := Forest.row_append.mp placed
  have starts : m ≤ s.forest.start token := behind.1
  by_cases inside : id < s.forest.size
  · obtain ⟨top, free, path⟩ := linked.exists_top inside
    have covers := Forest.span_of_below linked laid path
    have proper := Forest.start_le_stop linked laid id
    have topInside : top < s.forest.size := by
      rcases path.cases_head with rfl | ⟨_, owns, _⟩
      · exact inside
      · exact Forest.owner_lt_size owns
    by_cases old : top < base.forest.size
    · have stops := standing.ready.behind top
      rw [← (standing.toKept.spans_old standing.ready.sound old).2] at stops
      have first := ahead.le
      omega
    · have held := (standing.held top).mpr ⟨Nat.le_of_not_lt old, topInside, free⟩
      rw [row, Held.ids_append] at held
      rcases List.mem_append.mp held with early | isLast
      · have stops := (ahead.inside_id early).2
        omega
      · obtain rfl : top = token := by simpa using isLast
        rcases path.cases_head with rfl | ⟨part, owns, _⟩
        · exact Nat.le_refl _
        · obtain ⟨found, here, kind⟩ := Option.bind_eq_some_iff.mp isToken
          have none := linked.token top found here (by
            unfold Item.tokenKind? at kind
            unfold Item.isToken
            cases same : found.kind <;> rw [same] at kind <;> first | rfl | cases kind)
          rw [Forest.owns_of_get here, none] at owns
          cases owns
  · rw [Forest.start_of_size_le (Nat.le_of_not_lt inside)]
    exact Nat.zero_le _

end ParseState

namespace Parse

variable {grammar : Grammar} {full : Prop} {base s t u : ParseState} {left : List Held}
  {keywords taken : List Nat} {kind : ItemKind} {start last : Nat} {place : Nat}
  {cause : AttachError → Fault.Cause}

section Gather

variable (standing : Standing grammar full base s (left ++ keywords.map item))
  (littered : Littered s t)
  (custom : ∃ category trigger name accepts, kind = .custom category trigger name accepts)
  (begins : keywords.head?.map s.forest.start = some start) (isLast : keywords.getLast? = some last)
  (latest : ∀ id, s.forest.start id ≤ s.forest.start last)

include standing littered custom begins isLast latest

theorem ends_takePart {part : Nat} {isChild : Bool} (gathering : Gathering s t u kind start keywords taken)
    (ahead : ∀ x ∈ taken, ∀ y, Made s t y → y ∉ taken → t.forest.stop x ≤ t.forest.start y) :
    Ends (attachOr (fun error => stop place 0 (cause error))
        (·.attach t.forest.size part .regular isChild)) u
      (fun _ v => Made s t part ∧ Gathering s t v kind start keywords (taken ++ [part]))
      (fun _ v => Littered base v) := by
  have complex : kind.isToken = false := by
    obtain ⟨category, trigger, name, accepts, rfl⟩ := custom
    rfl
  unfold attachOr
  simp only [ends_forest_bind]
  cases attached : u.forest.attach t.forest.size part .regular isChild with
  | error error =>
      have here := gathering.littered_base standing littered complex begins ahead
      refine ends_error rfl (here.of_same rfl (List.prefix_append _ _) rfl rfl rfl (Nat.le_refl _) ?_)
      exact here.inside
  | ok next => exact ends_ok rfl (gathering.accepted standing littered complex custom isLast latest attached)

/-- One part after the other, as long as they are accepted. -/
theorem ends_takeParts {before rest : List CustomPart} (listed : Listed s t (before ++ rest))
    (gathering : Gathering s t u kind start keywords taken)
    (all : ∀ id ∈ before.map CustomPart.item, Made s t id → id ∈ taken)
    (only : ∀ id ∈ taken, id ∈ before.map CustomPart.item) :
    Ends (rest.forM fun part => match part with
      | .token part => attachOr (fun error => stop place 0 (cause error))
          (·.addRegular t.forest.size part)
      | .child part => attachOr (fun error => stop place 0 (cause error))
          (·.addChild t.forest.size part)) u
      (fun _ v => ∃ taken, Gathering s t v kind start keywords taken ∧ ∀ id, Made s t id → id ∈ taken)
      (fun _ v => Littered base v) := by
  induction rest generalizing before taken u with
  | nil =>
      rw [List.append_nil] at listed
      exact ends_pure ⟨taken, gathering, fun id made => all id (listed.all id made) made⟩
  | cons part rest ih =>
      -- What has not been taken yet is listed later, and the list is in the order of the text.
      have ahead : ∀ x ∈ taken, ∀ y, Made s t y → y ∉ taken →
          t.forest.stop x ≤ t.forest.start y := by
        intro x isTaken y madeY notTaken
        have madeX := gathering.made x isTaken
        have different : x ≠ y := by
          rintro rfl
          exact notTaken isTaken
        have listedY := listed.all y madeY
        have ordered := listed.ordered
        rw [List.map_append] at listedY ordered
        have later : y ∈ (part :: rest).map CustomPart.item :=
          (List.mem_append.mp listedY).resolve_left fun early => notTaken (all y early madeY)
        have less := (List.pairwise_append.mp ordered).2.2 x (only x isTaken) y later madeX madeY different
        have proper := Forest.start_le_stop littered.sound.linked littered.sound.laid y
        rcases littered.apart x y madeX madeY different with apart | apart <;> omega
      have step : ∀ v, (Made s t part.item ∧
          Gathering s t v kind start keywords (taken ++ [part.item])) →
          Ends (rest.forM fun part => match part with
            | .token part => attachOr (fun error => stop place 0 (cause error))
                (·.addRegular t.forest.size part)
            | .child part => attachOr (fun error => stop place 0 (cause error))
                (·.addChild t.forest.size part)) v
            (fun _ v => ∃ taken, Gathering s t v kind start keywords taken ∧
              ∀ id, Made s t id → id ∈ taken) (fun _ v => Littered base v) := by
        rintro v ⟨_, gathering⟩
        have listedMore : Listed s t (before ++ [part] ++ rest) := by simpa using listed
        refine ih listedMore gathering ?_ ?_
        · intro id member made
          rw [List.map_append] at member
          rcases List.mem_append.mp member with early | isPart
          · exact List.mem_append_left _ (all id early made)
          · exact List.mem_append_right _ isPart
        · intro id member
          rw [List.map_append]
          rcases List.mem_append.mp member with early | isPart
          · exact List.mem_append_left _ (only id early)
          · exact List.mem_append_right _ isPart
      rw [List.forM]
      cases part with
      | token part =>
          refine (ends_takePart standing littered custom begins isLast latest gathering ahead).bind ?_
            fun _ _ littered => littered
          exact fun _ v => step v
      | child part =>
          refine (ends_takePart standing littered custom begins isLast latest gathering ahead).bind ?_
            fun _ _ littered => littered
          exact fun _ v => step v

end Gather

/-- The keywords are never refused, so what an expression begins with is in place before its parts
come. -/
theorem gathering_keywords (start : Nat) {before : List Nat} {token : Nat}
    (standing : Standing grammar full base s (left ++ (before ++ [token]).map item))
    (littered : Littered s t) (complex : kind.isToken = false) :
    (t.forest.create kind start).2.Awaits t.forest.size .keywords before ∧
      (Forest.linkAll t.forest.size .keywords false before (t.forest.create kind start).2).Awaits
        t.forest.size .regular [token] ∧
      Gathering s t (t.withForest (Forest.linkAll t.forest.size .regular false [token]
        (Forest.linkAll t.forest.size .keywords false before (t.forest.create kind start).2)))
        kind start (before ++ [token]) [] := by
  have sizes := littered.size
  obtain ⟨m, _, among⟩ := Forest.row_append.mp standing.placed
  have sound : (t.forest.create kind start).2.Sound := sound_created littered complex
  obtain ⟨startsHere, none, _, whole⟩ := Forest.stands_create littered.sound.linked complex start
  have size : (t.forest.create kind start).2.size = t.forest.size + 1 := by
    rw [Forest.create_complex complex, Forest.size_push]
  have freeOwner : (t.forest.create kind start).2.parent? t.forest.size = Option.none := by
    rw [Forest.create_complex complex, Forest.parent?, Forest.get_push_new]
    rfl
  have spans : ∀ {id : Nat}, id < s.forest.size →
      (t.forest.create kind start).2.start id = s.forest.start id ∧
        (t.forest.create kind start).2.stop id = s.forest.stop id :=
    spans_created start standing.sound littered complex
  have known : ∀ id ∈ before ++ [token], id < s.forest.size ∧
      (t.forest.create kind start).2.parent? id = Option.none ∧
      (t.forest.create kind start).2.start id < (t.forest.create kind start).2.stop id := by
    intro id member
    obtain ⟨_, inside, free⟩ := Gathering.keyword standing member
    refine ⟨inside, ?_, ?_⟩
    · rw [Forest.parent?, (created_old start littered.sound complex (Nat.lt_of_lt_of_le inside sizes)).1,
        littered.old id inside]
      exact free
    · rw [(spans inside).1, (spans inside).2]
      exact (among.inside (List.mem_map_of_mem (f := item) member)).2.1
  have laid : (before ++ [token]).Pairwise (t.forest.create kind start).2.Before := by
    refine among.laid.imp_of_mem fun {x y} inX inY isBefore => ?_
    unfold Forest.Before
    rw [(spans (known x inX).1).1, (spans (known x inX).1).2, (spans (known y inY).1).1]
    exact isBefore
  have same := Forest.Grafted.refl sound t.forest.size
  -- All keywords but the last are linked first, in front of everything else.
  have first : (t.forest.create kind start).2.Awaits t.forest.size .keywords before := by
    refine same.awaits whole freeOwner List.not_mem_nil ?_ ?_ ?_
    · intro part member
      obtain ⟨inside, free, _⟩ := known part (List.mem_append_left _ member)
      exact ⟨by omega, by omega, List.not_mem_nil, free⟩
    · rw [none]
      simpa [Parts.upTo, Parts.beyond] using (List.pairwise_append.mp laid).1
    · exact fun part member => Or.inl (known part (List.mem_append_left _ member)).2.2
  have noChild : ∀ {place : Section}, false = true → place = .regular := by rintro _ ⟨⟩
  have grafted := same.linkAll first noChild
  rw [List.nil_append] at grafted
  have insideOwner : t.forest.size < (t.forest.create kind start).2.size := by omega
  have upTo := Forest.upTo_linkAll .keywords false before insideOwner
  have others : ∀ other, other ≠ Section.keywords →
      ((Forest.linkAll t.forest.size .keywords false before (t.forest.create kind start).2).parts
        t.forest.size).get other = [] := by
    intro other different
    rw [Forest.get_linkAll_of_ne insideOwner different, none]
    cases other <;> rfl
  have noPrefixes := others .prefixes (by rintro ⟨⟩)
  have noRegular := others .regular (by rintro ⟨⟩)
  have noPostfixes : ((Forest.linkAll t.forest.size .keywords false before
      (t.forest.create kind start).2).parts t.forest.size).beyond .regular = [] :=
    others .postfixes (by rintro ⟨⟩)
  have inFront : ((Forest.linkAll t.forest.size .keywords false before
      (t.forest.create kind start).2).parts t.forest.size).upTo .regular = before := by
    rw [none] at upTo
    simp only [Parts.upTo, List.append_nil, List.nil_append] at upTo ⊢
    rw [upTo]
    simp only [Parts.get] at noRegular
    rw [noRegular, List.append_nil]
  -- The last keyword is the first of the regular parts.
  have second : (Forest.linkAll t.forest.size .keywords false before
      (t.forest.create kind start).2).Awaits t.forest.size .regular [token] := by
    refine grafted.awaits whole freeOwner ?_ ?_ ?_ ?_
    · intro member
      have inside := (known _ (List.mem_append_left _ member)).1
      omega
    · intro part member
      obtain ⟨inside, free, _⟩ := known part (List.mem_append_right _ member)
      refine ⟨by omega, by omega, fun early => ?_, free⟩
      have isBefore := (List.pairwise_append.mp laid).2.2 part early part member
      exact Nat.lt_irrefl _ isBefore.1
    · rw [inFront, noPostfixes, List.append_nil]
      exact laid
    · exact fun part member => Or.inl (known part (List.mem_append_right _ member)).2.2
  have both := grafted.linkAll second noChild
  have size' : (Forest.linkAll t.forest.size .keywords false before
      (t.forest.create kind start).2).size = t.forest.size + 1 := grafted.size.trans size
  rw [← List.append_nil (before ++ [token])] at both
  refine ⟨first, second, both, rfl, List.prefix_refl _, by simp, ?_, ?_, ?_⟩
  · rw [List.append_nil]
    refine (Forest.upTo_link (by omega)).trans ?_
    rw [inFront]
  · exact (Forest.beyond_link (by omega)).trans noPostfixes
  · have insideBoth : t.forest.size < (Forest.linkAll t.forest.size .keywords false before
        (t.forest.create kind start).2).size := by omega
    have same := Forest.get_link_of_ne token false insideBoth
      (show Section.prefixes ≠ .regular by simp)
    exact same.trans noPrefixes

/-- The keywords, the trigger and the parts make a new item, or a part is refused. -/
theorem ends_createCustom (idle : ¬ full) (extension : Extension) {trigger : Trigger}
    {parts : List CustomPart}
    (standing : Standing grammar full base s (left ++ (trigger.before ++ [trigger.token]).map item))
    (littered : Littered s t) (listed : Listed s t parts)
    (latest : ∀ id, s.forest.start id ≤ s.forest.start trigger.token) :
    Ends (createCustom extension trigger parts) t
      (fun id u => Standing grammar full base u (left ++ [item id]) ∧ u.cursor = t.cursor ∧
        ∀ prefixes, u.forest.Fresh ⟨prefixes, []⟩ id)
      (fun _ u => Littered base u) := by
  unfold createCustom
  simp only [ends_forest_bind, ends_create_bind]
  generalize kind_eq : ItemKind.custom extension.category trigger.keyword extension.name
    extension.accepts = kind
  have complex : kind.isToken = false := by
    rw [← kind_eq]
    rfl
  generalize start_eq : t.forest.start (trigger.before.head?.getD trigger.token) = start
  obtain ⟨first, second, gathering⟩ := gathering_keywords start standing
    littered complex
  have known : ∀ id ∈ trigger.before ++ [trigger.token], id < s.forest.size := fun id member =>
    (Gathering.keyword standing member).2.1
  have begins : (trigger.before ++ [trigger.token]).head?.map s.forest.start = some start := by
    have head : (trigger.before ++ [trigger.token]).head? =
        some (trigger.before.head?.getD trigger.token) := by
      cases trigger.before <;> rfl
    have inside := known _ (List.mem_of_mem_head? head)
    rw [head, ← start_eq, (littered.toKept.spans_old standing.sound inside).1]
    rfl
  have sound : (t.forest.create kind start).2.Sound := sound_created littered complex
  have noChild : false = true → Section.keywords = .regular := nofun
  refine (ends_attachEach (t := t.withForest (t.forest.create kind start).2) sound first noChild).bind ?_
    fun _ _ never => never.elim
  rintro _ u rfl
  refine (ends_attachOr second).bind ?_ fun _ _ never => never.elim
  rintro _ v rfl
  have listedAll : Listed s t ([] ++ parts) := listed
  refine (ends_takeParts standing littered ⟨_, _, _, _, kind_eq.symm⟩ begins
    (List.getLast?_concat ..) latest listedAll gathering (by simp) (by simp)).bind ?_
    fun _ _ littered => littered
  rintro _ w ⟨taken, gathering, all⟩
  refine ends_pure ⟨gathering.standing_base standing littered complex begins idle all,
    gathering.cursor, fun prefixes => ⟨?_, gathering.noPrefixes, Or.inl rfl⟩⟩
  exact gathering.grafted.complex (Forest.stands_create littered.sound.linked complex start).2.2.2

/-! Attempts -/

/-- What an attempt leaves behind if the parser goes on: nothing, or a new item in place of the
keywords. -/
def Attempted (grammar : Grammar) (full : Prop) (base s : ParseState) (left : List Held)
    (found : Option ItemId) (t : ParseState) : Prop :=
  found = none ∧ Rewound s t ∧ (full → t = s) ∨
    ∃ id, found = some id ∧ Standing grammar full base t (left ++ [item id]) ∧
      s.cursor.position ≤ t.cursor.position ∧ ∀ prefixes, t.forest.Fresh ⟨prefixes, []⟩ id

section Attempt

variable {depth : Nat} {extensions : List Extension} {trigger : Trigger}

/-- The attempts at a trigger. Each of them begins in the state of the first one, but for faults. -/
theorem ends_tryExtensions (idle : ¬ full) (parses : (segment grammar depth).Parses grammar False s.cursor.text depth)
    (tidy : grammar.Tidy s.cursor.text) (shallow : s.cursor.remaining < depth)
    (standing : Standing grammar full base s (left ++ (trigger.before ++ [trigger.token]).map item))
    (offered : ∀ extension ∈ extensions, extension ∈ grammar.extensionsFor trigger.keyword)
    (token : s.forest.tokenKind? trigger.token = some (.keyword trigger.keyword)) :
    Ends (tryExtensions grammar (segment grammar depth) trigger s.cursor.position extensions) s
      (Attempted grammar full base s left) (fun _ t => Littered base t) := by
  induction extensions generalizing s with
  | nil => exact ends_pure (Or.inl ⟨rfl, Rewound.refl s, fun _ => rfl⟩)
  | cons extension rest ih =>
      have ready := standing.next
      have latest := standing.latest token
      have free := (Gathering.keyword standing (List.mem_append_right _ List.mem_cons_self)).2.2
      have loose : s.Ready grammar False := ready.loosen
      have called : Called grammar extension trigger s :=
        ⟨loose, offered extension List.mem_cons_self, token, free, latest⟩
      have ends : Ends (Script.steps grammar (segment grammar depth) extension trigger []
          extension.steps) s (fun parts t => Littered s t ∧ Listed s t parts)
          (fun _ t => Littered s t) := by
        have strays := Script.strays_steps extension trigger parses [] extension.steps s loose rfl shallow
        have accounts := tidy depth extension trigger s called rfl shallow
        unfold Ends at *
        cases run : Script.steps grammar (segment grammar depth) extension trigger []
            extension.steps s with
        | ok parts t =>
            rw [run] at strays
            exact ⟨strays, accounts parts t run⟩
        | error exit t => rwa [run] at strays
      unfold tryExtensions
      simp only [ends_criticalCount_bind, ends_size_bind]
      refine (ends_runScript ends).bind ?_ fun _ _ never => never.elim
      intro outcome t holds
      simp only [ends_criticalCount_bind]
      cases outcome with
      | declined =>
          have littered : Littered s t := holds
          dsimp only
          split
          · exact ends_throw (standing.littered.trans littered)
          -- The next extension is tried in the state that this one has found.
          · have rewound := littered.rewound standing.sound standing.within
            simp only [moveTo, changeForest, ends_modify_bind]
            have again := ih (s := { t with
                cursor := t.cursor.moveTo s.cursor.position
                forest := t.forest.truncate s.forest.size })
              (by rwa [rewound.text]) (by rwa [rewound.text]) ?_ (standing.rewound idle rewound)
              (fun other member => offered other (List.mem_cons_of_mem _ member)) ?_
            · rw [rewound.position] at again
              refine again.imp ?_ fun _ _ littered => littered
              rintro found u (⟨rfl, more, _⟩ | ⟨id, rfl, standing, further, fresh⟩)
              · exact Or.inl ⟨rfl, rewound.trans more, fun strict => absurd strict idle⟩
              · exact Or.inr ⟨id, rfl, standing, rewound.position ▸ further, fresh⟩
            · have same := Cursor.remaining_le rewound.text (Nat.le_of_eq rewound.position.symm)
              exact Nat.lt_of_le_of_lt same shallow
            · rw [rewound.forest]
              exact token
      | finished parts =>
          obtain ⟨littered, listed⟩ : Littered s t ∧ Listed s t parts := holds
          dsimp only
          refine (ends_createCustom idle extension standing littered listed latest).bind ?_
            fun _ _ littered => littered
          rintro id u ⟨made, cursor, fresh⟩
          split
          · exact ends_throw made.littered
          · refine ends_pure (Or.inr ⟨id, rfl, made, ?_, fresh⟩)
            rw [cursor]
            exact littered.moved
      | failed error =>
          have littered : Littered s t := holds
          have here := standing.littered.trans littered
          dsimp only
          split
          · exact ends_throw here
          · simp only [ends_forest_bind]
            exact ends_error rfl (here.of_same rfl (List.prefix_append _ _) rfl rfl rfl (Nat.le_refl _)
              here.inside)

theorem ends_keywordId (token : Nat) :
    Ends (keywordId? token) s (fun found t => t = s ∧
      ∀ id, found = some id → s.forest.tokenKind? token = some (.keyword id)) (fun _ _ => False) := by
  unfold keywordId?
  simp only [ends_forest_bind]
  split
  · rename_i id isKeyword
    exact ends_pure ⟨rfl, fun other same => Option.some.inj same ▸ isKeyword⟩
  · exact ends_pure ⟨rfl, nofun⟩

/-- What the parse of a segment rests on. -/
structure Setting (grammar : Grammar) (full : Prop) (whole : Text) (depth : Nat) : Prop where
  named : grammar.Named
  plain : full → grammar.extensions = []
  tidy : grammar.Tidy whole
  parses : (segment grammar depth).Parses grammar full whole depth

theorem ends_custom {keywords : List Nat} {whole : Text} (prefixes : List Nat)
    (setting : Setting grammar full whole depth) (same : s.cursor.text = whole)
    (shallow : keywords ≠ [] → s.cursor.remaining < depth)
    (standing : Standing grammar full base s (left ++ keywords.map item)) :
    Ends (custom? grammar (segment grammar depth) prefixes keywords) s
      (fun found t => Attempted grammar full base s left found t ∧ (found ≠ none → keywords ≠ []))
      (fun _ t => Halted grammar full base t) := by
  subst same
  unfold custom?
  cases last : keywords.getLast? with
  | none => exact ends_pure ⟨Or.inl ⟨rfl, Rewound.refl s, fun _ => rfl⟩, fun some => absurd rfl some⟩
  | some token =>
      have filled := List.ne_nil_of_mem (List.mem_of_getLast? last)
      refine (ends_keywordId token).bind ?_ fun _ _ never => never.elim
      rintro found t ⟨rfl, isKeyword⟩
      cases found with
      | none => exact ends_pure ⟨Or.inl ⟨rfl, Rewound.refl t, fun _ => rfl⟩, fun _ => filled⟩
      | some keyword =>
          simp only [ends_position_bind]
          by_cases strict : full
          · have none : grammar.extensionsFor keyword = [] := by
              unfold Grammar.extensionsFor
              rw [setting.plain strict]
              rfl
            rw [none]
            exact ends_pure ⟨Or.inl ⟨rfl, Rewound.refl t, fun _ => rfl⟩, fun _ => filled⟩
          · obtain ⟨before, rfl⟩ := List.getLast?_eq_some_iff.mp last
            have loose : (segment grammar depth).Parses grammar False t.cursor.text depth := by
              have parses := setting.parses
              rwa [eq_false strict] at parses
            rw [List.dropLast_concat]
            refine (ends_tryExtensions strict loose setting.tidy (shallow filled) standing
              (fun _ offered => offered) (isKeyword keyword rfl)).imp
              (fun _ _ attempted => ⟨attempted, fun _ => filled⟩) ?_
            · exact fun _ u littered => ⟨littered, fun isStrict => absurd isStrict strict,
                fun isStrict => absurd isStrict strict, fun isStrict => absurd isStrict strict⟩

end Attempt

end Parse

end ExprLang
