import ExprLang.Proofs.Fields.Agreement
import ExprLang.Proofs.Parse.Contained

/-!
Steps that fill the forest. As long as a step gives a value, whatever it has made agrees with itself,
and what was there keeps its fields, its regular parts and its children; of a step that stops nothing
is said, since it leaves things half made. The rules follow the way steps are put together and carry a
list of items along that are known to be no tokens.
-/

namespace ExprLang

open Forest (Filled IsComplex)

variable {α β γ : Type} {known more : List ItemId} {found : α → List ItemId}

/-- From a forest where the items in `known` are no tokens the step fills the forest, and the items
that are `found` in its value are no tokens either. -/
def Fills (known : List ItemId) (found : α → List ItemId) (step : Parse α) : Prop :=
  ∀ s, s.forest.Closed → (∀ id ∈ known, s.forest.IsComplex id) →
    Ends step s (fun value t => (∀ id ∈ found value, t.forest.IsComplex id) ∧
      Filled [] s.forest t.forest) fun _ _ => True

/-! Putting steps together -/

theorem Fills.mono {step : Parse α} (fills : Fills known found step) (subset : known ⊆ more) :
    Fills more found step :=
  fun s closed complex => fills s closed fun id member => complex id (subset member)

theorem Fills.imp {other : α → List ItemId} {step : Parse α} (fills : Fills known found step)
    (fewer : ∀ value, other value ⊆ found value) : Fills known other step := by
  intro s closed complex
  refine (fills s closed complex).imp ?_ fun _ _ _ => trivial
  intro value t reached
  exact ⟨fun id member => reached.1 id (fewer value member), reached.2⟩

theorem fills_bind {mid : α → List ItemId} {found : β → List ItemId} {step : Parse α}
    {next : α → Parse β} (first : Fills known mid step)
    (rest : ∀ value, Fills (mid value ++ known) found (next value)) :
    Fills known found (step >>= next) := by
  intro s closed complex
  refine Ends.bind (first s closed complex) ?_ fun _ _ _ => trivial
  intro value t reached
  obtain ⟨complexMid, filled⟩ := reached
  have complexHere : ∀ id ∈ mid value ++ known, t.forest.IsComplex id := fun id member =>
    (List.mem_append.mp member).elim (complexMid id) fun isKnown => (complex id isKnown).stays filled
  refine (rest value t filled.closed complexHere).imp ?_ fun _ _ _ => trivial
  intro result u done
  exact ⟨done.1, filled.trans done.2⟩

theorem fills_pure {value : α} (inside : found value ⊆ known) :
    Fills known found (pure value : Parse α) := fun _ closed complex =>
  ends_pure ⟨fun id member => complex id (inside member), Forest.filled_refl closed (by simp)⟩

theorem fills_forM {items : List β} {step : β → Parse Unit}
    (each : ∀ item ∈ items, Fills known (fun _ => []) (step item)) :
    Fills known (fun _ => []) (items.forM step) := by
  induction items with
  | nil => exact fills_pure (List.nil_subset _)
  | cons item rest ih =>
      exact fills_bind (each item List.mem_cons_self) fun _ =>
        ih fun other member => each other (List.mem_cons_of_mem item member)

theorem fills_mapM {found : γ → List ItemId} {step : β → Parse γ} {items : List β}
    (each : ∀ item ∈ items, Fills known found (step item)) :
    Fills known (fun values => values.flatMap found) (items.mapM step) := by
  induction items generalizing known with
  | nil =>
      rw [List.mapM_nil]
      exact fills_pure (List.nil_subset _)
  | cons item rest ih =>
      rw [List.mapM_cons]
      refine fills_bind (each item List.mem_cons_self) fun value => ?_
      refine fills_bind (ih fun other member =>
        (each other (List.mem_cons_of_mem item member)).mono (List.subset_append_right _ _))
        fun values => fills_pure ?_
      rw [List.flatMap_cons]
      intro id member
      simp only [List.mem_append] at member ⊢
      exact member.elim (fun first => Or.inr (Or.inl first)) Or.inl

/-- The value goes through a row of steps. -/
theorem fills_foldlM {step : ItemId → β → Parse ItemId} {items : List β}
    (each : ∀ item ∈ items, ∀ value, Fills (value :: known) (fun id => [id]) (step value item))
    {value : ItemId} (start : value ∈ known) :
    Fills known (fun id => [id]) (items.foldlM step value) := by
  induction items generalizing value known with
  | nil => exact fills_pure (by simpa using start)
  | cons item rest ih =>
      rw [List.foldlM_cons]
      refine fills_bind ((each item List.mem_cons_self value).mono (by simpa using start)) fun next => ?_
      refine ih (fun other member value => ?_) List.mem_cons_self
      refine (each other (List.mem_cons_of_mem item member) value).mono fun id inKnown => ?_
      exact (List.mem_cons.mp inKnown).elim (fun same => same ▸ List.mem_cons_self)
        fun isKnown => List.mem_cons_of_mem _ (List.mem_cons_of_mem _ isKnown)

/-! Single steps -/

theorem fills_same {step : Parse α}
    (same : ∀ s, Ends step s (fun _ t => t.forest = s.forest) fun _ _ => True) :
    Fills known (fun _ => []) step := by
  intro s closed complex
  refine (same s).imp (fun _ t same => ⟨by simp, ?_⟩) fun _ _ _ => trivial
  rw [same]
  exact Forest.filled_refl closed (by simp)

namespace Parse

theorem fills_position : Fills known (fun _ => []) position := fills_same fun _ => ends_ok rfl rfl

theorem fills_text : Fills known (fun _ => []) text := fills_same fun _ => ends_ok rfl rfl

theorem fills_slice {start stop : Nat} : Fills known (fun _ => []) (slice start stop) :=
  fills_same fun _ => ends_ok rfl rfl

theorem fills_forest : Fills known (fun _ => []) forest := fills_same fun _ => ends_ok rfl rfl

theorem fills_remaining : Fills known (fun _ => []) remaining := fills_same fun _ => ends_ok rfl rfl

theorem fills_get : Fills known (fun _ => []) (get : Parse ParseState) :=
  fills_same fun _ => ends_ok rfl rfl

theorem fills_moveTo {place : Nat} : Fills known (fun _ => []) (moveTo place) :=
  fills_same fun _ => ends_ok rfl rfl

theorem fills_skip {count : Nat} : Fills known (fun _ => []) (skip count) :=
  fills_same fun _ => ends_ok rfl rfl

theorem fills_addFault {fault : Fault} : Fills known (fun _ => []) (addFault fault) :=
  fills_same fun _ => ends_ok rfl rfl

theorem fills_report {start length : Nat} {cause : Fault.Cause} :
    Fills known (fun _ => []) (report start length cause) := fills_addFault

theorem fills_skipGap : Fills known (fun _ => []) skipGap :=
  fills_same fun _ => ends_skipGap.imp (fun _ _ reached => reached.1) fun _ _ never => never.elim

theorem fills_stop {start length : Nat} {cause : Fault.Cause} :
    Fills known found (stop start length cause) := fun _ _ _ => ends_error rfl trivial

theorem fills_stuck {place : Nat} : Fills known found (stuck place) := fills_stop

/-- Out of passes. -/
theorem fills_stuckHere : Fills known found (do stuck (← position)) :=
  fills_bind fills_position fun _ => fills_stuck

theorem fills_createToken {kind : TokenKind} {word : String} {start : Nat} :
    Fills known (fun _ => []) (createToken kind word start) := fun _ closed _ =>
  ends_ok rfl ⟨by simp, Forest.filled_push closed rfl rfl fun _ _ _ => trivial⟩

/-- A token that has just been made. -/
structure NewToken (kind : TokenKind) (before after : Forest) (token : ItemId) : Prop where
  filled : Filled [] before after
  new : before.size ≤ token
  inside : token < after.size
  isKind : after.tokenKind? token = some kind

theorem ends_createToken_kind {s : ParseState} {kind : TokenKind} {word : String} {start : Nat}
    (closed : s.forest.Closed) :
    Ends (createToken kind word start) s (fun token t => NewToken kind s.forest t.forest token)
      fun _ _ => True :=
  ends_ok rfl ⟨Forest.filled_push closed rfl rfl fun _ _ _ => trivial, Nat.le_refl _,
    Nat.lt_of_lt_of_eq (Nat.lt_succ_self _) (Forest.size_push _).symm, Forest.tokenKind_createToken⟩

/-- Parts in the other sections are no matter of the fields. -/
theorem fills_attach_aside {owner item : ItemId} {place : Section} (aside : place ≠ .regular) :
    Fills known (fun _ => []) (attach (·.attach owner item place false)) := by
  intro s closed _
  unfold attach attachOr
  simp only [ends_forest_bind]
  cases attached : s.forest.attach owner item place false with
  | error error => exact ends_error rfl trivial
  | ok next =>
      obtain ⟨rfl, ownerInside, itemInside⟩ := Forest.attach_ok attached
      exact ends_ok rfl ⟨by simp, Forest.filled_link_aside closed ownerInside itemInside aside⟩

theorem fills_addPrefix {owner item : ItemId} : Fills known (fun _ => []) (addPrefix owner item) :=
  fills_attach_aside (by simp)

theorem fills_addKeyword {owner item : ItemId} :
    Fills known (fun _ => []) (addKeyword owner item) := fills_attach_aside (by simp)

theorem fills_addPostfix {owner item : ItemId} :
    Fills known (fun _ => []) (addPostfix owner item) := fills_attach_aside (by simp)

end Parse

/-! Items whose fields have nothing to do with their parts -/

/-- The step adds parts to the item and leaves its fields. -/
def Adds (item : ItemId) (P : α → Prop) (step : Parse α) : Prop :=
  ∀ s, s.forest.Closed → item < s.forest.size →
    Ends step s (fun value t => P value ∧ Filled [item] s.forest t.forest ∧
      t.forest.kind? item = s.forest.kind? item) fun _ _ => True

variable {item : ItemId}

theorem adds_bind {P : α → Prop} {Q : β → Prop} {step : Parse α} {next : α → Parse β}
    (first : Adds item P step) (rest : ∀ value, P value → Adds item Q (next value)) :
    Adds item Q (step >>= next) := by
  intro s closed inside
  refine Ends.bind (first s closed inside) ?_ fun _ _ _ => trivial
  intro value t reached
  obtain ⟨holds, filled, same⟩ := reached
  refine (rest value holds t filled.closed (Nat.lt_of_lt_of_le inside filled.size)).imp ?_
    fun _ _ _ => trivial
  intro result u done
  exact ⟨done.1, filled.trans done.2.1, done.2.2.trans same⟩

theorem adds_pure {P : α → Prop} {value : α} (holds : P value) :
    Adds item P (pure value : Parse α) := fun _ closed inside =>
  ends_pure ⟨holds, Forest.filled_refl closed (by simpa using inside), rfl⟩

theorem adds_forM {items : List β} {step : β → Parse Unit}
    (each : ∀ part ∈ items, Adds item (fun _ => True) (step part)) :
    Adds item (fun _ => True) (items.forM step) := by
  induction items with
  | nil => exact adds_pure trivial
  | cons part rest ih =>
      exact adds_bind (each part List.mem_cons_self) fun _ _ =>
        ih fun other member => each other (List.mem_cons_of_mem part member)

theorem adds_of_fills {step : Parse α} (fills : Fills [] found step) :
    Adds item (fun _ => True) step := by
  intro s closed inside
  refine (fills s closed (by simp)).imp ?_ fun _ _ _ => trivial
  intro value t reached
  exact ⟨trivial, reached.2.widen (by simpa using inside),
    (reached.2.kept item inside List.not_mem_nil).kind⟩

theorem adds_attachOr {refused : AttachError → Parse Unit} {part : ItemId} {place : Section}
    {isChild : Bool} (stops : ∀ error s, Ends (refused error) s (fun _ _ => False) fun _ _ => True) :
    Adds item (fun _ => True) (Parse.attachOr refused (·.attach item part place isChild)) := by
  intro s closed inside
  unfold Parse.attachOr
  simp only [Parse.ends_forest_bind]
  cases attached : s.forest.attach item part place isChild with
  | error error => exact (stops error s).imp (fun _ _ never => never.elim) fun _ _ _ => trivial
  | ok next =>
      obtain ⟨rfl, _, partInside⟩ := Forest.attach_ok attached
      exact ends_ok rfl ⟨trivial, Forest.filled_link closed inside partInside, Forest.kind_link⟩

theorem adds_attach {part : ItemId} {place : Section} {isChild : Bool} :
    Adds item (fun _ => True) (Parse.attach (·.attach item part place isChild)) :=
  adds_attachOr fun _ _ => ends_error rfl trivial

/-- An item with such fields that gets its parts right away. -/
theorem fills_made {kind : ItemKind} {start : Nat} {next : ItemId → Parse ItemId}
    (plain : kind.Plain) (complex : kind.isToken = false)
    (rest : ∀ item, Adds item (· = item) (next item)) :
    Fills known (fun id => [id]) (Parse.create kind start >>= next) := by
  intro s closed _
  simp only [Parse.ends_create_bind]
  have made : (s.forest.create kind start).2.kind? s.forest.size = some kind := Forest.kind_push_new
  have bigger : s.forest.size < (s.forest.create kind start).2.size :=
    Nat.lt_of_lt_of_eq (Nat.lt_succ_self _) (Forest.size_push _).symm
  refine (rest s.forest.size _ (Forest.closed_push rfl rfl closed) bigger).imp ?_ fun _ _ _ => trivial
  intro value t reached
  obtain ⟨rfl, filled, same⟩ := reached
  have isKind := same.trans made
  refine ⟨fun id member => ?_, filled.of_made rfl fun other isOther => ?_⟩
  · obtain rfl := List.mem_singleton.mp member
    exact ⟨Forest.lt_size_of_kind isKind, Forest.tokenKind_of_complex isKind complex⟩
  · obtain rfl : kind = other := Option.some.inj (isKind.symm.trans isOther)
    exact plain _ _ _

/-! Items whose fields tell of their parts -/

namespace Forest

/-- An item that is being made, with its fields, regular parts and children so far; `base` is the
forest in which it was new. -/
structure Built (item : ItemId) (kind : ItemKind) (regular children : List ItemId)
    (base forest : Forest) : Prop where
  filled : Filled [item] base forest
  kind : forest.kind? item = some kind
  regular : (forest.parts item).regular = regular
  children : (forest.parts item).children = children

variable {kind : ItemKind} {regular children : List ItemId} {base before after : Forest}

theorem built_create {start : Nat} (closed : before.Closed) :
    Built before.size kind [] [] (before.create kind start).2 (before.create kind start).2 where
  filled := filled_refl (closed_push rfl rfl closed) (by simp [create])
  kind := kind_push_new
  regular := congrArg Parts.regular parts_push_new
  children := congrArg Parts.children parts_push_new

namespace Built

variable (built : Built item kind regular children base before)

include built

theorem inside : item < before.size := lt_size_of_kind built.kind

theorem stays (filled : Filled [] before after) : Built item kind regular children base after := by
  have same := filled.kept item built.inside List.not_mem_nil
  refine ⟨built.filled.trans (filled.widen (by simpa using built.inside)), ?_, ?_, ?_⟩
  · rw [same.kind, built.kind]
  · rw [same.regular, built.regular]
  · rw [same.children, built.children]

theorem link {part : ItemId} {isChild : Bool} (partInside : part < before.size) :
    Built item kind (regular ++ [part]) (children ++ if isChild then [part] else []) base
      (before.link item part .regular isChild) where
  filled := built.filled.trans (filled_link built.filled.closed built.inside partInside)
  kind := kind_link.trans built.kind
  regular := by
    rw [parts_link_owner built.inside, ← built.regular]
    cases isChild <;> rfl
  children := by
    rw [parts_link_owner built.inside, ← built.children]
    cases isChild <;> simp

theorem changeKind (change : ItemKind → ItemKind) (complex : kind.isToken = false)
    (stays : (change kind).isToken = false) :
    Filled [item] before (before.modify item fun item => { item with kind := change item.kind }) ∧
    Built item (change kind) regular children base
      (before.modify item fun item => { item with kind := change item.kind }) := by
  have filled := filled_changeKind built.filled.closed built.kind complex stays
  refine ⟨filled, built.filled.trans filled, ?_, ?_, ?_⟩
  · rw [kind_changeKind, if_pos rfl, built.kind, Option.map_some]
  · rw [parts_changeKind, built.regular]
  · rw [parts_changeKind, built.children]

end Built

theorem Built.setKind (built : Built item kind regular children base before) (new : ItemKind)
    (complex : kind.isToken = false) (stays : new.isToken = false) :
    Built item new regular children base (before.setKind item new) ∧
      (before.setKind item new).tokenKind? = before.tokenKind? :=
  ⟨(built.changeKind (fun _ => new) complex stays).2,
    funext fun _ => @tokens_changeKind _ _ _ (fun _ => new) _ built.kind complex stays⟩

/-- The fields tell what the parts are. -/
structure Finished (item : ItemId) (base forest : Forest) : Prop where
  built : ∃ kind regular children, Built item kind regular children base forest ∧
    kind.Agrees forest.tokenKind? regular children ∧ kind.isToken = false

theorem Finished.fills {new : Item} (bare : new.parts = {})
    (finished : Finished before.size (before.push new).2 after) :
    after.IsComplex before.size ∧ Filled [] before after := by
  obtain ⟨kind, regular, children, built, agrees, complex⟩ := finished.built
  refine ⟨⟨built.inside, tokenKind_of_complex built.kind complex⟩, built.filled.of_made bare ?_⟩
  intro other isOther
  obtain rfl : kind = other := Option.some.inj (built.kind.symm.trans isOther)
  rw [built.regular, built.children]
  exact agrees

end Forest

open Forest (Built Finished)

variable {kind : ItemKind} {regular children : List ItemId} {base : Forest} {s : ParseState}

theorem ends_attach_built {part : ItemId} {isChild : Bool}
    (built : Built item kind regular children base s.forest) :
    Ends (Parse.attach (·.attach item part .regular isChild)) s
      (fun _ t => Filled [item] s.forest t.forest ∧
        Built item kind (regular ++ [part]) (children ++ if isChild then [part] else []) base t.forest)
      fun _ _ => True := by
  unfold Parse.attach Parse.attachOr
  simp only [Parse.ends_forest_bind]
  cases attached : s.forest.attach item part .regular isChild with
  | error error => exact ends_error rfl trivial
  | ok next =>
      obtain ⟨rfl, ownerInside, partInside⟩ := Forest.attach_ok attached
      exact ends_ok rfl
        ⟨Forest.filled_link built.filled.closed ownerInside partInside, built.link partInside⟩

theorem ends_addRegular_built {part : ItemId}
    (built : Built item kind regular children base s.forest) :
    Ends (Parse.addRegular item part) s
      (fun _ t => Filled [item] s.forest t.forest ∧
        Built item kind (regular ++ [part]) children base t.forest) fun _ _ => True :=
  (ends_attach_built built).imp (fun _ _ reached => by simpa using reached) fun _ _ _ => trivial

theorem ends_addChild_built {part : ItemId}
    (built : Built item kind regular children base s.forest) :
    Ends (Parse.addChild item part) s
      (fun _ t => Filled [item] s.forest t.forest ∧
        Built item kind (regular ++ [part]) (children ++ [part]) base t.forest) fun _ _ => True :=
  ends_attach_built built

/-- What a step fills, seen from a state before it. -/
theorem ends_after {step : Parse α} {t : ParseState} (filled : Filled [] s.forest t.forest)
    (ends : Ends step t (fun value u => (∀ id ∈ found value, u.forest.IsComplex id) ∧
      Filled [] t.forest u.forest) fun _ _ => True) :
    Ends step t (fun value u => (∀ id ∈ found value, u.forest.IsComplex id) ∧
      Filled [] s.forest u.forest) fun _ _ => True :=
  ends.imp (fun _ _ reached => ⟨reached.1, filled.trans reached.2⟩) fun _ _ _ => trivial

/-- An item that is made and gets its parts before anything else happens to it. -/
theorem ends_made {start : Nat} {next : ItemId → Parse ItemId} (closed : s.forest.Closed)
    (rest : ∀ t, Built s.forest.size kind [] [] t.forest t.forest →
      (∀ id < s.forest.size, t.forest.tokenKind? id = s.forest.tokenKind? id) →
      Ends (next s.forest.size) t
        (fun value u => value = s.forest.size ∧ Finished s.forest.size t.forest u.forest)
        fun _ _ => True) :
    Ends (Parse.create kind start >>= next) s
      (fun value u => (∀ id ∈ [value], u.forest.IsComplex id) ∧ Filled [] s.forest u.forest)
      fun _ _ => True := by
  simp only [Parse.ends_create_bind]
  refine (rest _ (Forest.built_create closed) fun id inside => Forest.tokens_push inside).imp ?_
    fun _ _ _ => trivial
  intro value u reached
  obtain ⟨rfl, finished⟩ := reached
  simpa using finished.fills rfl

/-- An item may also be added only if there is one. -/
theorem ends_addChild_option {part : Option ItemId}
    (built : Built item kind regular children base s.forest) :
    Ends (part.forM (Parse.addChild item)) s
      (fun _ t => Filled [item] s.forest t.forest ∧
        Built item kind (regular ++ part.toList) (children ++ part.toList) base t.forest)
      fun _ _ => True := by
  cases part with
  | none =>
      refine ends_pure ⟨Forest.filled_refl built.filled.closed ?_, ?_⟩
      · simpa using built.inside
      · simpa using built
  | some part => exact ends_addChild_built built

end ExprLang
