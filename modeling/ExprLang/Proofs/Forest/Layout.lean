import ExprLang.Proofs.Forest.Links

/-!
Spans. The parts of an item stand in text order, each one behind the one before, so an item covers
its parts. A part may be attached where it starts and stops between its neighbours, and that moves
the span of its owner and of nothing else as long as the owner is detached itself.
-/

namespace ExprLang

namespace Parts

/-- The parts in front of a new one in this section. -/
def upTo (parts : Parts) : Section → List ItemId
  | .prefixes => parts.prefixes
  | .keywords => parts.prefixes ++ parts.keywords
  | .regular => parts.prefixes ++ parts.keywords ++ parts.regular
  | .postfixes => parts.all

/-- The parts behind a new one in this section. -/
def beyond (parts : Parts) : Section → List ItemId
  | .prefixes => parts.keywords ++ parts.regular ++ parts.postfixes
  | .keywords => parts.regular ++ parts.postfixes
  | .regular => parts.postfixes
  | .postfixes => []

variable (parts : Parts) (place : Section)

theorem all_eq : parts.all = parts.upTo place ++ parts.beyond place := by
  cases place <;> simp [all, upTo, beyond]

theorem all_push (part : ItemId) :
    (parts.push part place).all = parts.upTo place ++ part :: parts.beyond place := by
  cases place <;> simp [all, push, upTo, beyond]

end Parts

namespace Forest

variable {forest : Forest}

theorem neighbours_eq (parts : Parts) (place : Section) :
    neighbours parts place = ((parts.upTo place).getLast?, (parts.beyond place).head?) := by
  cases place <;> simp [neighbours, Parts.upTo, Parts.beyond]

/-- `x` starts before `y` and stops before `y` starts. -/
def Before (forest : Forest) (x y : Nat) : Prop :=
  forest.start x < forest.start y ∧ forest.stop x ≤ forest.start y

theorem Before.trans {x y z : Nat} (left : forest.Before x y) (right : forest.Before y z) :
    forest.Before x z :=
  ⟨Nat.lt_trans left.1 right.1, Nat.le_trans left.2 (Nat.le_of_lt right.1)⟩

/-- What fits between its neighbours in a row fits into the row. -/
theorem pairwise_between {R : Nat → Nat → Prop} (trans : ∀ x y z, R x y → R y z → R x z)
    {front back : List Nat} {x : Nat} (row : (front ++ back).Pairwise R)
    (ahead : ∀ last ∈ front.getLast?, R last x) (behind : ∀ next ∈ back.head?, R x next) :
    (front ++ x :: back).Pairwise R := by
  obtain ⟨left, right, across⟩ := List.pairwise_append.mp row
  have before : ∀ y ∈ front, R y x := by
    intro y member
    obtain ⟨last, final⟩ := Option.ne_none_iff_exists'.mp
      (mt List.getLast?_eq_none_iff.mp (List.ne_nil_of_mem member))
    obtain ⟨earlier, rfl⟩ := List.getLast?_eq_some_iff.mp final
    rcases List.mem_append.mp member with inEarlier | isLast
    · exact trans _ _ _ ((List.pairwise_append.mp left).2.2 y inEarlier last (by simp)) (ahead last final)
    · exact List.mem_singleton.mp isLast ▸ ahead last final
  have after : ∀ y ∈ back, R x y := by
    intro y member
    cases back with
    | nil => cases member
    | cons next rest =>
        rcases List.mem_cons.mp member with rfl | later
        · exact behind y rfl
        · exact trans _ _ _ (behind next rfl) (List.rel_of_pairwise_cons right later)
  refine List.pairwise_append.mpr ⟨left, List.pairwise_cons.mpr ⟨after, right⟩, fun y inFront z member => ?_⟩
  rcases List.mem_cons.mp member with rfl | inBack
  · exact before y inFront
  · exact across y inFront z inBack

/-- The parts of every item stand one behind the other. -/
def Laid (forest : Forest) : Prop := ∀ owner, (forest.parts owner).all.Pairwise forest.Before

theorem start_of_size_le {id : Nat} (outside : forest.size ≤ id) : forest.start id = 0 := by
  have absent : forest.get? id = none := Array.getElem?_eq_none outside
  unfold start
  cases forest.size <;> simp [startWithin, absent]

theorem stop_of_size_le {id : Nat} (outside : forest.size ≤ id) : forest.stop id = 0 := by
  have absent : forest.get? id = none := Array.getElem?_eq_none outside
  unfold stop
  cases forest.size <;> simp [stopWithin, absent]

/-- The first of a row starts first. -/
theorem start_head_le {row : List Nat} (laid : row.Pairwise forest.Before) {first part : Nat}
    (head : row.head? = some first) (member : part ∈ row) :
    forest.start first ≤ forest.start part := by
  cases row with
  | nil => cases head
  | cons other rest =>
      cases head
      rcases List.mem_cons.mp member with rfl | later
      · exact Nat.le_refl _
      · exact Nat.le_of_lt (List.rel_of_pairwise_cons laid later).1

/-- The last of a row stops last. -/
theorem stop_le_getLast {row : List Nat} (laid : row.Pairwise forest.Before)
    (proper : ∀ part ∈ row, forest.start part ≤ forest.stop part) {last part : Nat}
    (final : row.getLast? = some last) (member : part ∈ row) :
    forest.stop part ≤ forest.stop last := by
  obtain ⟨before, rfl⟩ := List.getLast?_eq_some_iff.mp final
  rcases List.mem_append.mp member with earlier | same
  · have ahead := (List.pairwise_append.mp laid).2.2 part earlier last (by simp)
    exact Nat.le_trans ahead.2 (proper last (by simp))
  · rw [List.mem_singleton.mp same]

theorem start_le_stop (linked : forest.Linked) (laid : forest.Laid) (id : Nat) :
    forest.start id ≤ forest.stop id := by
  induction weight : forest.weight id using Nat.strong_induction_on generalizing id with
  | _ count ih =>
      by_cases inside : id < forest.size
      · obtain ⟨item, found⟩ := get_of_lt inside
        have proper : ∀ part ∈ item.parts.all, forest.start part ≤ forest.stop part := by
          intro part member
          exact ih _ (weight ▸ linked.weight_lt ((owns_of_get found).mpr member)) part rfl
        have row := laid id
        rw [parts_of_get found] at row
        rw [linked.start_eq found, linked.stop_eq found]
        cases first : item.parts.all.head? with
        | none =>
            rw [List.head?_eq_none_iff] at first
            simp [first]
        | some part =>
            have member := List.mem_of_mem_head? first
            obtain ⟨last, final⟩ := Option.ne_none_iff_exists'.mp
              (mt List.getLast?_eq_none_iff.mp (List.ne_nil_of_mem member))
            rw [final]
            exact Nat.le_trans (proper part member) (stop_le_getLast row proper final member)
      · rw [start_of_size_le (Nat.le_of_not_lt inside)]
        exact Nat.zero_le _

/-- An item covers its parts. -/
theorem span_of_part (linked : forest.Linked) (laid : forest.Laid) {owner part : Nat}
    (owns : forest.Owns owner part) :
    forest.start owner ≤ forest.start part ∧ forest.stop part ≤ forest.stop owner := by
  obtain ⟨item, found⟩ := get_of_lt (owner_lt_size owns)
  have row := laid owner
  rw [parts_of_get found] at row
  have member := (owns_of_get found).mp owns
  have proper : ∀ other ∈ item.parts.all, forest.start other ≤ forest.stop other :=
    fun other _ => start_le_stop linked laid other
  have filled := List.ne_nil_of_mem member
  obtain ⟨first, head⟩ := Option.ne_none_iff_exists'.mp (mt List.head?_eq_none_iff.mp filled)
  obtain ⟨last, final⟩ := Option.ne_none_iff_exists'.mp (mt List.getLast?_eq_none_iff.mp filled)
  rw [linked.start_eq found, linked.stop_eq found, head, final]
  exact ⟨start_head_le row head member, stop_le_getLast row proper final member⟩

/-- An item covers all that stands below it. -/
theorem span_of_below (linked : forest.Linked) (laid : forest.Laid) {top id : Nat}
    (path : Relation.ReflTransGen forest.Owns top id) :
    forest.start top ≤ forest.start id ∧ forest.stop id ≤ forest.stop top := by
  induction path with
  | refl => exact ⟨Nat.le_refl _, Nat.le_refl _⟩
  | tail _ owns ih =>
      have covers := span_of_part linked laid owns
      exact ⟨Nat.le_trans ih.1 covers.1, Nat.le_trans covers.2 ih.2⟩

/-! Attaching -/

/-- Between its neighbours there is room for `item` in a section of `owner`. -/
def Fits (forest : Forest) (owner item : Nat) (place : Section) : Prop :=
  (∀ last ∈ ((forest.parts owner).upTo place).getLast?, forest.Before last item) ∧
    ∀ next ∈ ((forest.parts owner).beyond place).head?, forest.Before item next

/-- A detached owner that is no token, and a detached item to attach to it. -/
structure Attachable (forest : Forest) (owner item : Nat) : Prop where
  complex : ∃ owning, forest.get? owner = some owning ∧ owning.isToken = false
  inside : item < forest.size
  different : owner ≠ item
  freeOwner : forest.parent? owner = none
  free : forest.parent? item = none

section Attach

variable {owner item : Nat} {place : Section} {isChild : Bool}

theorem Fits.inOrder (fits : forest.Fits owner item place) :
    forest.isInOrder owner item place = true := by
  unfold isInOrder
  rw [neighbours_eq]
  have left := fits.1
  have right := fits.2
  cases last : ((forest.parts owner).upTo place).getLast? with
  | none =>
      cases next : ((forest.parts owner).beyond place).head? with
      | none => rfl
      | some part => simpa using (right part next).1
  | some part =>
      cases next : ((forest.parts owner).beyond place).head? with
      | none => simpa using (left part last).1
      | some other => simpa using ⟨(left part last).1, (right other next).1⟩

theorem Attachable.no_cycle (attachable : forest.Attachable owner item) :
    forest.isAncestorOrSelf item owner = false := by
  have filled : 0 < forest.size := Nat.lt_of_le_of_lt (Nat.zero_le item) attachable.inside
  obtain ⟨less, size⟩ : ∃ less, forest.size = less + 1 := ⟨forest.size - 1, by omega⟩
  simp [isAncestorOrSelf, size, isAncestorOrSelfWithin, attachable.freeOwner, attachable.different]

/-- Where there is room nothing is refused. -/
theorem attach_of_fits (isChild : Bool) (attachable : forest.Attachable owner item)
    (fits : forest.Fits owner item place) :
    forest.attach owner item place isChild = .ok (forest.link owner item place isChild) := by
  obtain ⟨owning, found, complex⟩ := attachable.complex
  obtain ⟨attached, foundItem⟩ := get_of_lt attachable.inside
  have free : attached.parent = none := (parent_of_get foundItem).symm.trans attachable.free
  simp [attach, found, complex, foundItem, attachable.no_cycle, free, fits.inOrder]

/-- What is not refused can be attached, and starts behind what stands before it. -/
theorem attachable_of_ok {next : Forest} (ordered : forest.ordered = true)
    (freeOwner : forest.parent? owner = none)
    (attached : forest.attach owner item place isChild = .ok next) :
    next = forest.link owner item place isChild ∧ forest.Attachable owner item ∧
      ∀ last ∈ ((forest.parts owner).upTo place).getLast?, forest.start last < forest.start item := by
  have linked := (attach_ok attached).1
  unfold attach at attached
  cases foundOwner : forest.get? owner with
  | none => simp [foundOwner] at attached
  | some owning =>
      cases complex : owning.isToken with
      | true => simp [foundOwner, complex] at attached
      | false =>
          cases foundItem : forest.get? item with
          | none => simp [foundOwner, complex, foundItem] at attached
          | some part =>
              have noCycle : forest.isAncestorOrSelf item owner = false := by
                by_contra found
                have cycle := Bool.eq_true_of_not_eq_false found
                simp [foundOwner, complex, foundItem, cycle] at attached
              have free : part.parent = none := by
                by_contra owned
                obtain ⟨parent, isParent⟩ := Option.ne_none_iff_exists'.mp owned
                simp [foundOwner, complex, foundItem, noCycle, isParent] at attached
              have inOrder : forest.isInOrder owner item place = true := by
                by_contra found
                have out := Bool.eq_false_of_not_eq_true found
                simp [foundOwner, complex, foundItem, noCycle, free, ordered, out] at attached
              have different : owner ≠ item := by
                rintro rfl
                simp [isAncestorOrSelf, isAncestorOrSelfWithin] at noCycle
              refine ⟨linked, ⟨⟨owning, foundOwner, complex⟩, get_lt_size foundItem, different,
                freeOwner, (parent_of_get foundItem).trans free⟩, ?_⟩
              intro last isLast
              unfold isInOrder at inOrder
              rw [neighbours_eq] at inOrder
              have behind := (Bool.and_eq_true_iff.mp inOrder).1
              rw [isLast] at behind
              simpa using behind

theorem Attachable.linked (attachable : forest.Attachable owner item) (linked : forest.Linked)
    (regular : isChild = true → place = .regular) :
    (forest.link owner item place isChild).Linked := by
  obtain ⟨owning, found, complex⟩ := attachable.complex
  exact linked_link linked attachable.different found complex attachable.inside
    attachable.freeOwner attachable.free regular

/-- Only the owner gets another span. -/
theorem spans_link_other (linked : forest.Linked) (attachable : forest.Attachable owner item)
    (regular : isChild = true → place = .regular) {id : Nat} (notOwner : id ≠ owner) :
    (forest.link owner item place isChild).start id = forest.start id ∧
      (forest.link owner item place isChild).stop id = forest.stop id := by
  by_cases inside : id < forest.size
  · refine spans_agree (K := fun id => id ≠ owner ∧ id < forest.size) linked
      (attachable.linked linked regular) ?_ ?_ ⟨notOwner, inside⟩
    · rintro other part _ owns
      refine ⟨?_, linked.part_lt_size owns⟩
      rintro rfl
      exact linked.not_owned attachable.freeOwner owns
    · rintro other ⟨notOwner, inside⟩
      obtain ⟨old, found⟩ := get_of_lt inside
      by_cases isItem : other = item
      · subst isItem
        refine ⟨old, { old with parent := some owner }, found, ?_, rfl, rfl, rfl⟩
        rw [get_link_item attachable.different, found]
        rfl
      · exact ⟨old, old, found, by rw [get_link_other isItem notOwner, found], rfl, rfl, rfl⟩
  · have outside := Nat.le_of_not_lt inside
    have outsideLink : (forest.link owner item place isChild).size ≤ id := by
      rw [size_link]
      exact outside
    rw [start_of_size_le outside, start_of_size_le outsideLink, stop_of_size_le outside,
      stop_of_size_le outsideLink]
    exact ⟨rfl, rfl⟩

theorem all_link_owner (inside : owner < forest.size) :
    ((forest.link owner item place isChild).parts owner).all =
      (forest.parts owner).upTo place ++ item :: (forest.parts owner).beyond place := by
  rw [parts_link_owner inside]
  cases isChild <;> simp [Parts.all_push]

section Owner

variable (linked : forest.Linked) (attachable : forest.Attachable owner item)
  (regular : isChild = true → place = .regular)

include linked attachable

theorem Attachable.part_ne {part : Nat} (member : part ∈ (forest.parts owner).all) : part ≠ owner := by
  rintro rfl
  exact linked.not_owned attachable.freeOwner member

include regular

/-- A first part moves the start of its owner. -/
theorem start_link_first (first : (forest.parts owner).upTo place = []) :
    (forest.link owner item place isChild).start owner = forest.start item := by
  obtain ⟨owning, found, _⟩ := attachable.complex
  have inside := get_lt_size found
  obtain ⟨linking, foundLink⟩ := get_of_lt
    (show owner < (forest.link owner item place isChild).size by rwa [size_link])
  rw [(attachable.linked linked regular).start_eq foundLink, ← parts_of_get foundLink,
    all_link_owner inside, first]
  exact (spans_link_other linked attachable regular (Ne.symm attachable.different)).1

theorem start_link_later (later : (forest.parts owner).upTo place ≠ []) :
    (forest.link owner item place isChild).start owner = forest.start owner := by
  obtain ⟨owning, found, _⟩ := attachable.complex
  have inside := get_lt_size found
  obtain ⟨linking, foundLink⟩ := get_of_lt
    (show owner < (forest.link owner item place isChild).size by rwa [size_link])
  obtain ⟨first, rest, parts⟩ := List.exists_cons_of_ne_nil later
  have member : first ∈ (forest.parts owner).all := by
    rw [Parts.all_eq _ place, parts]
    simp
  rw [(attachable.linked linked regular).start_eq foundLink, ← parts_of_get foundLink,
    all_link_owner inside, linked.start_eq found, ← parts_of_get found, Parts.all_eq _ place, parts]
  exact (spans_link_other linked attachable regular (attachable.part_ne linked member)).1

/-- A last part moves the end of its owner. -/
theorem stop_link_last (last : (forest.parts owner).beyond place = []) :
    (forest.link owner item place isChild).stop owner = forest.stop item := by
  obtain ⟨owning, found, _⟩ := attachable.complex
  have inside := get_lt_size found
  obtain ⟨linking, foundLink⟩ := get_of_lt
    (show owner < (forest.link owner item place isChild).size by rwa [size_link])
  rw [(attachable.linked linked regular).stop_eq foundLink, ← parts_of_get foundLink,
    all_link_owner inside, last, List.getLast?_concat]
  exact (spans_link_other linked attachable regular (Ne.symm attachable.different)).2

/-- The new part stands in order among the others. -/
theorem laid_link (laid : forest.Laid) (fits : forest.Fits owner item place) :
    (forest.link owner item place isChild).Laid := by
  have same : ∀ {x y : Nat}, x ≠ owner → y ≠ owner → forest.Before x y →
      (forest.link owner item place isChild).Before x y := by
    intro x y notX notY before
    unfold Before
    rw [(spans_link_other linked attachable regular notX).1,
      (spans_link_other linked attachable regular notX).2,
      (spans_link_other linked attachable regular notY).1]
    exact before
  intro other
  by_cases isOwner : other = owner
  · subst isOwner
    obtain ⟨owning, found, _⟩ := attachable.complex
    rw [all_link_owner (get_lt_size found)]
    have row := laid other
    have notOwner : ∀ part ∈ (forest.parts other).all, part ≠ other :=
      fun _ => attachable.part_ne linked
    rw [Parts.all_eq _ place] at row notOwner
    have between := pairwise_between (R := forest.Before) (fun _ _ _ => Before.trans) row fits.1 fits.2
    have notNew : ∀ part ∈ (forest.parts other).upTo place ++ item :: (forest.parts other).beyond place,
        part ≠ other := by
      intro part member
      rcases List.mem_append.mp member with front | isItem | ⟨_, back⟩
      · exact notOwner part (List.mem_append_left _ front)
      · exact Ne.symm attachable.different
      · exact notOwner part (List.mem_append_right _ back)
    exact between.imp_of_mem fun inX inY => same (notNew _ inX) (notNew _ inY)
  · rw [parts_link_other isOwner]
    refine (laid other).imp_of_mem fun inX inY => same ?_ ?_
    · rintro rfl
      exact linked.not_owned attachable.freeOwner inX
    · rintro rfl
      exact linked.not_owned attachable.freeOwner inY

end Owner

end Attach

/-! Other changes -/

section Push

variable {item : Item} (linked : forest.Linked) (bare : item.parts = {}) (free : item.parent = none)

include linked bare free

theorem spans_push_old {id : Nat} (inside : id < forest.size) :
    (forest.push item).2.start id = forest.start id ∧
      (forest.push item).2.stop id = forest.stop id := by
  refine spans_agree (K := (· < forest.size)) linked (linked_push bare free linked) ?_ ?_ inside
  · exact fun _ _ _ owns => linked.part_lt_size owns
  · intro other inside
    obtain ⟨old, found⟩ := get_of_lt inside
    exact ⟨old, old, found, by rw [get_push_old item inside, found], rfl, rfl, rfl⟩

theorem start_push_new : (forest.push item).2.start forest.size = item.start := by
  rw [(linked_push bare free linked).start_eq (get_push_new item), bare]
  rfl

theorem stop_push_new : (forest.push item).2.stop forest.size = item.start + item.length := by
  rw [(linked_push bare free linked).stop_eq (get_push_new item), bare]
  rfl

theorem laid_push (laid : forest.Laid) : (forest.push item).2.Laid := by
  intro owner
  rw [parts_push_old bare]
  refine (laid owner).imp_of_mem fun inX inY before => ?_
  unfold Before
  rw [(spans_push_old linked bare free (linked.part_lt_size inX)).1,
    (spans_push_old linked bare free (linked.part_lt_size inX)).2,
    (spans_push_old linked bare free (linked.part_lt_size inY)).1]
  exact before

end Push

section ChangeKind

variable {id : Nat} {change : ItemKind → ItemKind} (linked : forest.Linked)
  (tokens : ∀ found, forest.get? id = some found → (change found.kind).isToken = found.kind.isToken)

include linked tokens

theorem spans_changeKind (other : Nat) :
    (forest.modify id fun item => { item with kind := change item.kind }).start other =
        forest.start other ∧
      (forest.modify id fun item => { item with kind := change item.kind }).stop other =
        forest.stop other := by
  by_cases inside : other < forest.size
  · refine spans_agree (K := (· < forest.size)) linked (linked_changeKind tokens linked) ?_ ?_ inside
    · exact fun _ _ _ owns => linked.part_lt_size owns
    · intro here inside
      obtain ⟨old, found⟩ := get_of_lt inside
      by_cases isChanged : id = here
      · refine ⟨old, { old with kind := change old.kind }, found, ?_, rfl, rfl, rfl⟩
        rw [get_modify, if_pos isChanged, found]
        rfl
      · exact ⟨old, old, found, by rw [get_modify, if_neg isChanged, found], rfl, rfl, rfl⟩
  · have outside := Nat.le_of_not_lt inside
    rw [start_of_size_le outside, stop_of_size_le outside, start_of_size_le (by simpa using outside),
      stop_of_size_le (by simpa using outside)]
    exact ⟨rfl, rfl⟩

theorem laid_changeKind (laid : forest.Laid) :
    (forest.modify id fun item => { item with kind := change item.kind }).Laid := by
  intro owner
  rw [parts_changeKind]
  refine (laid owner).imp fun before => ?_
  unfold Before
  rw [(spans_changeKind linked tokens _).1, (spans_changeKind linked tokens _).2,
    (spans_changeKind linked tokens _).1]
  exact before

end ChangeKind

/-- A cut takes off what is new. -/
theorem truncate_restores {before after : Forest} (linked : before.Linked) (linkedAfter : after.Linked)
    (more : before.size ≤ after.size) (ordered : after.ordered = before.ordered)
    (old : ∀ id < before.size, after.get? id = before.get? id) :
    after.truncate before.size = before := by
  have untouched : Untouched before.size before after := ⟨ordered, fun id inside => by rw [old id inside]⟩
  have holds : Floor before.size after := by
    refine ⟨more, fun id inside part named => linked.closed.parts id part ?_⟩
    rwa [parts, old id inside] at named
  exact untouched.truncate holds linked.closed linkedAfter.closed

end Forest

end ExprLang
