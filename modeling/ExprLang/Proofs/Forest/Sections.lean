import ExprLang.Proofs.Forest.Editing

/-!
Sections in text order. A call that attaches checks the new part against its neighbours. What it does
not check is where the owner stands itself: a new first part moves the start of its owner, and of all
that begin with that owner. As long as only detached items are moved, all sections stay in order; a
part that is moved when it is attached already can come to start before its own neighbours.
-/

namespace ExprLang

open Relation

namespace Forest

variable {forest : Forest}

/-- In every item the parts start one behind the other, along all four sections. -/
def InOrder (forest : Forest) : Prop :=
  ∀ owner, (forest.parts owner).all.Pairwise fun x y => forest.start x < forest.start y

section Attach

variable {owner item : Nat} {place : Section} {isChild : Bool} {next : Forest}
  (linked : forest.Linked) (regular : isChild = true → place = .regular)
  (attached : forest.attach owner item place isChild = .ok next)

include linked regular attached

/-- What the owner does not stand below keeps its span. -/
theorem spans_attach_apart {id : Nat} (inside : id < forest.size)
    (apart : ¬ ReflTransGen forest.Owns id owner) : next.start id = forest.start id := by
  have linkedNext := linked_attach linked regular attached
  obtain ⟨rfl, _, _⟩ := attach_ok attached
  refine (spans_agree (K := fun id => id < forest.size ∧ ¬ ReflTransGen forest.Owns id owner) linked
    linkedNext ?_ ?_ ⟨inside, apart⟩).1
  · rintro other part ⟨_, apart⟩ owns
    exact ⟨linked.part_lt_size owns, fun path => apart (path.head owns)⟩
  · rintro other ⟨inside, apart⟩
    have notOwner : other ≠ owner := fun same => apart (same ▸ ReflTransGen.refl)
    obtain ⟨old, found⟩ := get_of_lt inside
    by_cases isItem : other = item
    · subst isItem
      refine ⟨old, { old with parent := some owner }, found, ?_, rfl, rfl, rfl⟩
      rw [get_link_item notOwner.symm, found]
      rfl
    · exact ⟨old, old, found, by rw [get_link_other isItem notOwner, found], rfl, rfl, rfl⟩

/-- The new part keeps its span. -/
theorem start_attach_item : next.start item = forest.start item := by
  obtain ⟨_, _, foundOwner, _, foundItem, apart, _, _, _⟩ := attach_ok_iff.mp attached
  refine spans_attach_apart linked regular attached (get_lt_size foundItem) ?_
  rw [← linked.isAncestorOrSelf_iff (get_lt_size foundOwner), apart]
  exact Bool.false_ne_true

/-- With a detached owner nothing else is moved. -/
theorem start_attach_detached (free : forest.parent? owner = none) {id : Nat} (inside : id < forest.size)
    (different : id ≠ owner) : next.start id = forest.start id := by
  refine spans_attach_apart linked regular attached inside fun path => ?_
  obtain ⟨above, _, owns⟩ := path.cases_tail.resolve_left (Ne.symm different)
  exact linked.not_owned free owns

/-- Where no attached item is moved the new part stands in order, and so do all others. -/
theorem inOrder_attach (ordered : forest.ordered = true) (inOrder : forest.InOrder)
    (steady : ∀ id < forest.size, forest.parent? id ≠ none → next.start id = forest.start id) :
    next.InOrder := by
  have keeps : ∀ {other part : Nat}, part ∈ (forest.parts other).all →
      next.start part = forest.start part := by
    intro other part member
    exact steady part (linked.part_lt_size member) fun free => linked.not_owned free member
  have same := start_attach_item linked regular attached
  obtain ⟨_, _, foundOwner, _, _, _, _, fits, rfl⟩ := attach_ok_iff.mp attached
  intro other
  by_cases isOwner : other = owner
  · subst isOwner
    rw [all_link_owner (get_lt_size foundOwner)]
    have fits := fits ordered
    rw [isInOrder, neighbours_eq, Bool.and_eq_true] at fits
    have row := inOrder other
    rw [Parts.all_eq _ place] at row
    have between := pairwise_between (R := fun x y => forest.start x < forest.start y)
      (fun _ _ _ => Nat.lt_trans) (x := item) row ?_ ?_
    · have stays : ∀ part ∈ (forest.parts other).upTo place ++ item :: (forest.parts other).beyond place,
          (forest.link other item place isChild).start part = forest.start part := by
        intro part member
        rcases List.mem_append.mp member with front | isItem | ⟨_, back⟩
        · exact @keeps other part (Parts.all_eq _ place ▸ List.mem_append_left _ front)
        · exact same
        · exact @keeps other part (Parts.all_eq _ place ▸ List.mem_append_right _ back)
      refine between.imp_of_mem fun inX inY less => ?_
      rw [stays _ inX, stays _ inY]
      exact less
    · intro last isLast
      have first := fits.1
      rw [isLast] at first
      exact of_decide_eq_true first
    · intro after isAfter
      have second := fits.2
      rw [isAfter] at second
      exact of_decide_eq_true second
  · rw [parts_link_other isOwner]
    refine (inOrder other).imp_of_mem fun inX inY less => ?_
    rw [keeps inX, keeps inY]
    exact less

end Attach

theorem inOrder_push {item : Item} (linked : forest.Linked) (bare : item.parts = {})
    (free : item.parent = none) (inOrder : forest.InOrder) : (forest.push item).2.InOrder := by
  intro owner
  rw [parts_push_old bare]
  refine (inOrder owner).imp_of_mem fun inX inY less => ?_
  rw [(spans_push_old linked bare free (linked.part_lt_size inX)).1,
    (spans_push_old linked bare free (linked.part_lt_size inY)).1]
  exact less

end Forest

open Forest

namespace Edit

/-- Calls that build a tree: they make items and attach them, and leave the watch on order as it is. -/
def Builds : Edit → Prop
  | truncate _ | watch _ => False
  | _ => True

instance (edit : Edit) : Decidable edit.Builds := by
  cases edit <;> unfold Builds <;> infer_instance

/-- The item that a call attaches to. -/
def owner? : Edit → Option ItemId
  | addPrefix owner _ | addKeyword owner _ | addPostfix owner _ | addRegular owner _
  | addChild owner _ => some owner
  | _ => none

/-- What a call attaches, and to what. -/
def link? : Edit → Option (ItemId × ItemId)
  | addPrefix owner item | addKeyword owner item | addPostfix owner item | addRegular owner item
  | addChild owner item => some (owner, item)
  | _ => none

/-- No item that is attached is moved by the call. -/
def Steady (forest : Forest) (edit : Edit) : Prop :=
  ∀ id < forest.size, forest.parent? id ≠ none → (edit.run forest).start id = forest.start id

/-- Each call is steady in the forest that it finds. -/
def AllSteady (forest : Forest) : List Edit → Prop
  | [] => True
  | edit :: rest => edit.Steady forest ∧ AllSteady (edit.run forest) rest

instance (forest : Forest) (edit : Edit) : Decidable (edit.Steady forest) :=
  inferInstanceAs (Decidable (∀ id < forest.size, _))

instance decidableAllSteady : ∀ (edits : List Edit) (forest : Forest), Decidable (AllSteady forest edits)
  | [], _ => isTrue trivial
  | edit :: rest, forest =>
      have := decidableAllSteady rest (edit.run forest)
      inferInstanceAs (Decidable (edit.Steady forest ∧ AllSteady (edit.run forest) rest))

variable {forest next : Forest} {edit : Edit}

theorem owner_eq_link (edit : Edit) : edit.owner? = edit.link?.map Prod.fst := by
  cases edit <;> rfl

/-- A call that builds makes an item or attaches one. -/
theorem makes_or_links (builds : edit.Builds) :
    (∃ new : Item, new.parts = {} ∧ new.parent = none ∧
        ∀ forest, edit.run forest = (forest.push new).2) ∨
      ∃ owner item place isChild, edit.link? = some (owner, item) ∧ (isChild = true → place = .regular) ∧
        ∀ forest : Forest, edit.apply forest = forest.attach owner item place isChild := by
  cases edit with
  | createToken kind text start => exact Or.inl ⟨_, rfl, rfl, fun _ => rfl⟩
  | create kind start => exact Or.inl ⟨_, rfl, rfl, fun _ => rfl⟩
  | addPrefix owner item => exact Or.inr ⟨owner, item, .prefixes, false, rfl, nofun, fun _ => rfl⟩
  | addKeyword owner item => exact Or.inr ⟨owner, item, .keywords, false, rfl, nofun, fun _ => rfl⟩
  | addPostfix owner item => exact Or.inr ⟨owner, item, .postfixes, false, rfl, nofun, fun _ => rfl⟩
  | addRegular owner item => exact Or.inr ⟨owner, item, .regular, false, rfl, nofun, fun _ => rfl⟩
  | addChild owner item => exact Or.inr ⟨owner, item, .regular, true, rfl, fun _ => rfl, fun _ => rfl⟩
  | truncate size => exact builds.elim
  | watch ordered => exact builds.elim

/-- In a forest it makes an item, or attaches one, or is refused. -/
theorem run_cases (builds : edit.Builds) (forest : Forest) :
    (∃ item, item.parts = {} ∧ item.parent = none ∧ edit.run forest = (forest.push item).2) ∨
      (∃ owner item place isChild, edit.owner? = some owner ∧ (isChild = true → place = .regular) ∧
        forest.attach owner item place isChild = .ok (edit.run forest)) ∨
      edit.run forest = forest := by
  rcases makes_or_links builds with
    ⟨item, bare, free, made⟩ | ⟨owner, item, place, isChild, isLink, regular, same⟩
  · exact Or.inl ⟨item, bare, free, made forest⟩
  · rw [run, same, owner_eq_link, isLink]
    cases attached : forest.attach owner item place isChild with
    | ok next => exact Or.inr (Or.inl ⟨owner, item, place, isChild, rfl, regular, attached⟩)
    | error error => exact Or.inr (Or.inr rfl)

theorem ordered_run (builds : edit.Builds) (ordered : forest.ordered = true) :
    (edit.run forest).ordered = true := by
  rcases run_cases builds forest with ⟨item, _, _, made⟩ | ⟨_, _, _, _, _, _, attached⟩ | same
  · rw [made]
    exact ordered
  · rw [(attach_ok attached).1, ordered_link]
    exact ordered
  · rw [same]
    exact ordered

theorem inOrder_run (builds : edit.Builds) (linked : forest.Linked) (ordered : forest.ordered = true)
    (inOrder : forest.InOrder) (steady : edit.Steady forest) : (edit.run forest).InOrder := by
  rcases run_cases builds forest with ⟨item, bare, free, made⟩ | ⟨_, _, _, _, _, regular, attached⟩ | same
  · rw [made]
    exact inOrder_push linked bare free inOrder
  · exact inOrder_attach linked regular attached ordered inOrder steady
  · rw [same]
    exact inOrder

/-- An owner that is detached itself can be given any part. -/
theorem steady_of_detached (builds : edit.Builds) (linked : forest.Linked)
    (detached : ∀ owner ∈ edit.owner?, forest.parent? owner = none) : edit.Steady forest := by
  intro id inside owned
  rcases run_cases builds forest with
    ⟨item, bare, free, made⟩ | ⟨owner, _, _, _, isOwner, regular, attached⟩ | same
  · rw [made]
    exact (spans_push_old linked bare free inside).1
  · have freeOwner := detached owner isOwner
    refine start_attach_detached linked regular attached freeOwner inside ?_
    rintro rfl
    exact owned freeOwner
  · rw [same]

end Edit

theorem Forest.inOrder_edit {forest : Forest} (linked : forest.Linked) (ordered : forest.ordered = true)
    (inOrder : forest.InOrder) {edits : List Edit} (builds : ∀ edit ∈ edits, edit.Builds)
    (steady : Edit.AllSteady forest edits) : (forest.edit edits).InOrder := by
  induction edits generalizing forest with
  | nil => exact inOrder
  | cons first rest ih =>
      have buildsFirst := builds first List.mem_cons_self
      exact ih (first.linked_run linked) (first.ordered_run buildsFirst ordered)
        (first.inOrder_run buildsFirst linked ordered inOrder steady.1)
        (fun edit member => builds edit (List.mem_cons_of_mem _ member)) steady.2

/-- A tree is in order if no call on the way moves what is attached already. A call whose owner is
detached moves nothing of that kind, in whatever tree: so every tree that is built from its leaves
upwards is in order. -/
theorem Forest.sections_in_order (edits : List Edit) (builds : ∀ edit ∈ edits, edit.Builds) :
    (Edit.AllSteady {} edits → (({} : Forest).edit edits).InOrder) ∧
      ∀ edit : Edit, edit.Builds →
        (∀ owner ∈ edit.owner?, (({} : Forest).edit edits).parent? owner = none) →
        edit.Steady (({} : Forest).edit edits) := by
  refine ⟨fun steady => ?_, fun edit buildsEdit detached => ?_⟩
  · exact inOrder_edit linked_empty rfl (fun owner => by simp [parts, get?]) builds steady
  · exact edit.steady_of_detached buildsEdit (linked_edit linked_empty edits) detached

/-- A nested tree from its leaves upwards: `1` with the keyword at 5 and the token at 7, in front of the
token at 9. -/
def Edit.upwards : List Edit :=
  [.create .series 0, .create .series 0, .createToken (.keyword 1) "k" 5, .createToken .name "x" 7,
    .createToken .name "y" 9, .addKeyword 1 2, .addRegular 1 3, .addChild 0 1, .addPostfix 0 4]

theorem Forest.upwards_in_order :
    (∀ edit ∈ Edit.upwards, edit.Builds) ∧ Edit.AllSteady {} Edit.upwards ∧
      (({} : Forest).edit Edit.upwards).InOrder ∧
      Edit.Steady (({} : Forest).edit Edit.upwards) (.addPrefix 0 4) := by
  have builds : ∀ edit ∈ Edit.upwards, edit.Builds := by decide
  have steady : Edit.AllSteady {} Edit.upwards := by decide +kernel
  refine ⟨builds, steady, (sections_in_order _ builds).1 steady, (sections_in_order _ builds).2 _ trivial ?_⟩
  rintro _ ⟨⟩
  decide +kernel

/-- Behind a keyword at 5 stands an item that starts at 9, until it gets a prefix at 2. -/
def Edit.lateInside : List Edit :=
  [.create .series 0, .create .series 0, .createToken (.keyword 1) "k" 5, .createToken .name "x" 9,
    .createToken .custom "p" 2, .addKeyword 0 2, .addPostfix 1 3, .addPostfix 0 1, .addPrefix 1 4]

/-- A prefix that a nested item gets late is not refused, and the item then starts before the part that
stands in front of it. -/
theorem Forest.late_prefix_breaks_order :
    (∀ edit ∈ Edit.lateInside, edit.Builds) ∧
      ((({} : Forest).edit Edit.lateInside).parts 0).all = [2, 1] ∧
      (({} : Forest).edit Edit.lateInside).start 2 = 5 ∧
      (({} : Forest).edit Edit.lateInside).start 1 = 2 ∧
      ¬ (({} : Forest).edit Edit.lateInside).InOrder := by
  have parts : ((({} : Forest).edit Edit.lateInside).parts 0).all = [2, 1] := by decide +kernel
  have first : (({} : Forest).edit Edit.lateInside).start 2 = 5 := by decide +kernel
  have second : (({} : Forest).edit Edit.lateInside).start 1 = 2 := by decide +kernel
  refine ⟨by decide, parts, first, second, fun inOrder => ?_⟩
  have row := inOrder 0
  rw [parts, List.pairwise_pair, first, second] at row
  exact absurd row (by decide)

end ExprLang
