import ExprLang.Proofs.Tandem.Lock

/-!
The single steps of two parses in lockstep: cursors, faults, items, links and gaps.
-/

namespace ExprLang.Tandem

open Parse
open ParseState (Later)

variable {W : Tandem} {ahead : ParseState → Prop} {s s' t t' : ParseState} {α β : Type}
  (lawful : W.Lawful)

include lawful

theorem ascends_front (p q : Nat) (frontP : W.front p) (frontQ : W.front q) (lt : p < q) :
    W.move p < W.move q :=
  lawful.ascends p q (lawful.rest_of_front p frontP) (lawful.rest_of_front q frontQ) lt

/-- The order of places is the order of their images. -/
theorem move_le_iff {p q : Nat} (restP : W.rest p) (restQ : W.rest q) :
    W.move p ≤ W.move q ↔ p ≤ q := by
  constructor
  · intro le
    by_contra lt
    have := lawful.ascends q p restQ restP (Nat.lt_of_not_le lt)
    omega
  · intro le
    rcases Nat.eq_or_lt_of_le le with rfl | lt
    · exact Nat.le_refl _
    · exact Nat.le_of_lt (lawful.ascends p q restP restQ lt)

theorem move_eq_iff {p q : Nat} (restP : W.rest p) (restQ : W.rest q) :
    W.move p = W.move q ↔ p = q := by
  have up := move_le_iff lawful restP restQ
  have down := move_le_iff lawful restQ restP
  omega

/-! The cursor -/

section Cursor

variable {owed : β → Prop} {carry : β → β} {fine : β → ParseState → ParseState → Prop}
  {next next' : Unit → Parse β}

omit lawful

theorem later_moved (s : ParseState) (cursor : Cursor) : Later s { s with cursor } :=
  .of_forest (List.prefix_refl _) rfl

theorem lock_moveTo_bind {place place' : Nat}
    (rest : W.Lock ahead owed carry { s with cursor := s.cursor.moveTo place }
      { s' with cursor := s'.cursor.moveTo place' } (next ()) (next' ()) fine) :
    W.Lock ahead owed carry s s' (moveTo place >>= next) (moveTo place' >>= next') fine :=
  rest.before (later_moved s _) rfl rfl

theorem lock_skip_bind {count count' : Nat}
    (rest : W.Lock ahead owed carry { s with cursor := s.cursor.skip count }
      { s' with cursor := s'.cursor.skip count' } (next ()) (next' ()) fine) :
    W.Lock ahead owed carry s s' (skip count >>= next) (skip count' >>= next') fine :=
  lock_moveTo_bind rest

end Cursor

omit lawful in
theorem Near.moved (near : W.Near s s') (place place' : Nat) :
    W.Near { s with cursor := s.cursor.moveTo place }
      { s' with cursor := s'.cursor.moveTo place' } :=
  ⟨near.text, near.other, near.markers, near.markersOther, near.forest, near.faults⟩

theorem Near.beside_moveTo (near : W.Near s s') {place : Nat} (rest : W.rest place) :
    W.Beside { s with cursor := s.cursor.moveTo place }
        { s' with cursor := s'.cursor.moveTo (W.move place) } ∧
      (s.cursor.moveTo place).position = place := by
  obtain ⟨inside, insideOther⟩ := lawful.inside place rest
  have here : (s.cursor.moveTo place).position = place := by
    simp only [Cursor.moveTo, near.text]
    omega
  have there : (s'.cursor.moveTo (W.move place)).position = W.move place := by
    simp only [Cursor.moveTo, near.other]
    omega
  exact ⟨{ toNear := near.moved place _, rest := here.symm ▸ rest, position := by rw [here, there] },
    here⟩

/-- Behind a token that is to come. -/
theorem Beside.after (beside : W.Beside s s') (near : W.Near t t') {length : Nat}
    (cursor : t.cursor = s.cursor.skip length) (cursorOther : t'.cursor = s'.cursor.skip length)
    (front : W.front s.cursor.position) (expects : W.expects s.cursor.position length)
    (inside : s.cursor.position + length ≤ W.text.size) :
    W.Beside t t' ∧ t.cursor.position = s.cursor.position + length := by
  obtain ⟨rest, moved⟩ := lawful.consume s.cursor.position length expects front inside
  obtain ⟨there, position⟩ := beside.toNear.beside_moveTo lawful rest
  rw [moved, ← beside.position] at there
  have here : t.cursor.position = s.cursor.position + length := cursor ▸ position
  have other := there.position
  dsimp only at other
  refine ⟨{ toNear := near, rest := here ▸ rest, position := ?_ }, here⟩
  rw [here, ← position, cursorOther]
  exact other

theorem Beside.behind (beside : W.Beside s s') (stays : W.Stays s s' t t') {length : Nat}
    (front : W.front s.cursor.position) (expects : W.expects s.cursor.position length)
    (inside : s.cursor.position + length ≤ W.text.size) :
    W.Beside { t with cursor := t.cursor.skip length } { t' with cursor := t'.cursor.skip length } ∧
      (t.cursor.skip length).position = s.cursor.position + length :=
  beside.after lawful (stays.near.moved _ _) (congrArg (Cursor.skip · length) stays.cursor)
    (congrArg (Cursor.skip · length) stays.cursorOther) front expects inside

theorem Beside.closer (beside : W.Beside s s') (there : W.Beside t t')
    (onward : s.cursor.position ≤ t.cursor.position) : t'.cursor.remaining ≤ s'.cursor.remaining := by
  have moves := (move_le_iff lawful beside.rest there.rest).mpr onward
  simp only [Cursor.remaining, beside.other, there.other, beside.position, there.position]
  omega

/-- Further on fewer characters remain. -/
theorem Beside.fewer (beside : W.Beside s s') (there : W.Beside t t')
    (further : s.cursor.position < t.cursor.position) :
    t.cursor.remaining < s.cursor.remaining ∧ t'.cursor.remaining < s'.cursor.remaining := by
  have inside := lawful.inside _ there.rest
  have moves := lawful.ascends _ _ beside.rest there.rest further
  simp only [Cursor.remaining, beside.text, beside.other, there.text, there.other, beside.position,
    there.position]
  omega

theorem Beside.current (beside : W.Beside s s') (front : W.front s.cursor.position) :
    s'.cursor.text[s'.cursor.position]? = s.cursor.text[s.cursor.position]?.map W.fold ∨
      ¬ W.rigid ∧ s.cursor.text[s.cursor.position]? = none ∧
        ∃ c, s'.cursor.text[s'.cursor.position]? = some c ∧ some c = W.grammar.separator := by
  rw [beside.text, beside.other, beside.position]
  exact lawful.char _ front

theorem Beside.current_some (beside : W.Beside s s') (front : W.front s.cursor.position) {c : Char}
    (here : s.cursor.text[s.cursor.position]? = some c) :
    s'.cursor.text[s'.cursor.position]? = some (W.fold c) := by
  rcases beside.current lawful front with same | ⟨_, none, _⟩
  · rw [same, here, Option.map_some]
  · rw [none] at here
    cases here

theorem Beside.current_none (beside : W.Beside s s') (front : W.front s.cursor.position)
    (rigid : W.rigid) (here : s.cursor.text[s.cursor.position]? = none) :
    s'.cursor.text[s'.cursor.position]? = none := by
  rcases beside.current lawful front with same | ⟨loose, _⟩
  · rw [same, here, Option.map_none]
  · exact absurd rigid loose

variable (heading : W.Heading ahead)

/-! Faults -/

omit lawful in
theorem Near.report (near : W.Near s s') {fault fault' : Fault} (alike : W.FaultAlike fault fault') :
    W.Near { s with faults := s.faults ++ [fault] } { s' with faults := s'.faults ++ [fault'] } where
  text := near.text
  other := near.other
  markers := near.markers
  markersOther := near.markersOther
  forest := near.forest
  faults := List.rel_append near.faults (List.Forall₂.cons alike List.Forall₂.nil)

section Faults

omit lawful

include heading

/-- A fault can only be met where all places move alike. -/
theorem rigid_of_fault {fault : Fault} (isAhead : ahead t) (member : fault ∈ t.faults) : W.rigid := by
  by_contra loose
  rw [heading.clean isAhead loose] at member
  cases member

theorem lock_addFault {fault fault' : Fault}
    (given : ahead s → W.Near s s' ∧ W.FaultAlike fault fault') :
    W.Locked ahead id s s' (addFault fault) (addFault fault')
      fun _ t t' => W.Stays s s' t t' ∧ W.rigid := by
  have grown := growing_addFault fault s
  refine lock_ok rfl rfl grown fun isAhead _ => ?_
  obtain ⟨near, alike⟩ := given (heading.later grown isAhead)
  refine ⟨rfl, ⟨near.report alike, rfl, rfl⟩, ?_⟩
  exact rigid_of_fault heading isAhead (List.mem_append_right _ (List.mem_singleton_self fault))

theorem lock_report {start length start' length' : Nat} {cause cause' : Fault.Cause}
    (given : ahead s → W.Near s s' ∧
      (W.rigid → start' = W.move start ∧ length' = length ∧ cause' = W.carryCause cause)) :
    W.Locked ahead id s s' (report start length cause) (report start' length' cause')
      fun _ t t' => W.Stays s s' t t' ∧ W.rigid := by
  refine lock_addFault heading fun isAhead => ⟨(given isAhead).1, fun rigid => ?_⟩
  obtain ⟨rfl, rfl, rfl⟩ := (given isAhead).2 rigid
  rfl

variable {due : α → Prop} {carry : α → α} {good : α → ParseState → ParseState → Prop}

/-- Where the first parse reports a fault, all places move alike. -/
theorem lock_reporting {start length : Nat} {cause : Fault.Cause} {value : α} {step' : Parse α}
    (lock : W.Lock (fun t => ahead t ∧ W.rigid) due carry s s'
      (report start length cause >>= fun _ => pure value) step' good) :
    W.Lock ahead due carry s s' (report start length cause >>= fun _ => pure value) step' good := by
  apply lock_given _ lock
  exact ends_ok rfl fun isAhead _ =>
    rigid_of_fault heading isAhead (List.mem_append_right _ List.mem_cons_self)

theorem lock_stop {start length start' length' : Nat} {cause cause' : Fault.Cause}
    (given : ahead s → W.Near s s' ∧
      (W.rigid → start' = W.move start ∧ length' = length ∧ cause' = W.carryCause cause)) :
    W.Lock ahead due carry s s' (stop start length cause) (stop start' length' cause') good := by
  have grown := growing_addFault ⟨start, length, cause, true⟩ s
  refine ends_error rfl ⟨grown, fun _ isAhead => ?_⟩
  obtain ⟨near, alike⟩ := given (heading.later grown isAhead)
  refine ⟨{}, _, rfl, near.report fun rigid => ?_⟩
  obtain ⟨rfl, rfl, rfl⟩ := alike rigid
  rfl

/-- The guards of the parser are never met. -/
theorem lock_broken {start length : Nat} {details : String} {step' : Parse α} :
    W.Lock ahead due carry s s' (stop start length (.parserImplementation details)) step' good := by
  refine ends_error rfl ⟨growing_addFault _ s, fun _ isAhead => ?_⟩
  exact absurd rfl (heading.sane isAhead _ (List.mem_append_right _ (List.mem_singleton_self _)))

theorem lock_stuck {place : Nat} {step' : Parse α} :
    W.Lock ahead due carry s s' (stuck place) step' good := lock_broken heading

theorem lock_stuckHere {step' : Parse α} :
    W.Lock ahead due carry s s' (do stuck (← position)) step' good := by
  have lock : W.Lock ahead due carry s s' (stuck s.cursor.position) step' good := lock_stuck heading
  exact lock

end Faults

/-! Items -/

omit lawful in
theorem Near.withForest (near : W.Near s s') {forest forest' : Forest}
    (mirror : W.Mirror forest forest') : W.Stays s s' { s with forest } { s' with forest := forest' } where
  near := ⟨near.text, near.other, near.markers, near.markersOther, mirror, near.faults⟩
  cursor := rfl
  cursorOther := rfl

omit lawful in
theorem Near.rename_size (near : W.Near s s') :
    s.forest.size ≠ 0 ∧ W.rename s.forest.size = s'.forest.size := by
  have positive := near.forest.size_pos
  have known : s.forest.size ≠ 0 := by omega
  exact ⟨known, by rw [near.forest.size, W.rename_of_ne known]⟩

section Items

include heading

omit lawful

theorem lock_create {kind kind' : ItemKind} {start start' : Nat} (complex : kind.isToken = false)
    (given : ahead s → W.Near s s' ∧ W.front start ∧ start' = W.move start ∧ W.Kind kind kind') :
    W.Locked ahead W.rename s s' (create kind start) (create kind' start')
      fun id t t' => Known t id ∧ W.Stays s s' t t' := by
  have grown := growing_create kind start s
  refine lock_ok rfl rfl grown fun isAhead _ => ?_
  obtain ⟨near, front, rfl, alike⟩ := given (heading.later grown isAhead)
  have complexOther : kind'.isToken = false := (isToken_of_kind alike).trans complex
  have mirror : W.Mirror (s.forest.create kind start).2 (s'.forest.create kind' (W.move start)).2 := by
    rw [Forest.create_complex complex, Forest.create_complex complexOther]
    exact near.forest.push rfl rfl ⟨rfl, front, rfl, rfl, alike, rfl⟩
  have size : s.forest.size < (s.forest.create kind start).2.size := by
    rw [Forest.create_complex complex, Forest.size_push]
    exact Nat.lt_succ_self _
  exact ⟨near.rename_size.2.symm, ⟨near.rename_size.1, size⟩, near.withForest mirror⟩

/-- A new token that is not empty is one that is expected. -/
theorem lock_createToken {kind : TokenKind} {word word' : String} {start start' : Nat}
    (given : ahead s → W.Near s s' ∧ W.front start ∧ start' = W.move start ∧
      ((0 < word.length → W.expects start word.length) → word' = W.word word)) :
    W.Locked ahead W.rename s s' (createToken kind word start) (createToken kind word' start')
      fun id t t' => Known t id ∧ W.Stays s s' t t' ∧
        (0 < word.length → W.expects start word.length) := by
  have grown := growing_createToken kind word start s
  refine lock_ok rfl rfl grown fun isAhead _ => ?_
  have expects : 0 < word.length → W.expects start word.length :=
    heading.awaited isAhead (Forest.get_push_new _) rfl
  obtain ⟨near, front, rfl, spelled⟩ := given (heading.later grown isAhead)
  rw [spelled expects]
  refine ⟨near.rename_size.2.symm, ⟨near.rename_size.1, ?_⟩, near.withForest ?_, expects⟩
  · exact Forest.get_lt_size (Forest.get_push_new _)
  · exact near.forest.push rfl rfl ⟨rfl, front, rfl, W.length_word word, rfl, rfl⟩

theorem lock_changeKind {item : Nat} {change change' : ItemKind → ItemKind}
    (keeps : ∀ kind, (change kind).isToken = kind.isToken)
    (given : ahead s → W.Near s s' ∧ item ≠ 0 ∧
      ∀ kind kind', W.Kind kind kind' → W.Kind (change kind) (change' kind')) :
    W.Locked ahead id s s' (changeKind item change) (changeKind (W.rename item) change')
      fun _ t t' => W.Stays s s' t t' := by
  have grown := growing_changeKind item keeps s
  refine lock_ok rfl rfl grown fun isAhead _ => ?_
  obtain ⟨near, known, alike⟩ := given (heading.later grown isAhead)
  refine ⟨rfl, near.withForest ?_⟩
  exact near.forest.changeKind known (fun item _ kind same => alike _ kind same) fun item _ => keeps _

theorem lock_setKind {item : Nat} {kind kind' : ItemKind} (complex : kind.isToken = false)
    (holds : ∃ found, s.forest.get? item = some found ∧ found.isToken = false)
    (given : ahead s → W.Near s s' ∧ item ≠ 0 ∧ W.Kind kind kind') :
    W.Locked ahead id s s' (changeForest (·.setKind item kind))
      (changeForest (·.setKind (W.rename item) kind')) fun _ t t' => W.Stays s s' t t' := by
  have keeps : ∀ found, s.forest.get? item = some found → kind.isToken = found.isToken := by
    obtain ⟨known, here, none⟩ := holds
    intro found there
    cases here.symm.trans there
    exact complex.trans none.symm
  have grown : Later s { s with forest := s.forest.setKind item kind } :=
    .of_modify rfl rfl fun found here => ⟨rfl, rfl, keeps found here⟩
  refine lock_ok rfl rfl grown fun isAhead _ => ?_
  obtain ⟨near, known, alike⟩ := given (heading.later grown isAhead)
  have mirror := @Mirror.changeKind W _ _ near.forest item known (fun _ => kind) (fun _ => kind')
    (fun _ _ _ _ => alike) keeps
  exact ⟨rfl, near.withForest mirror⟩

omit heading in
theorem attach_run {change : Forest → Except AttachError Forest} {next : Forest}
    (attached : change s.forest = .ok next) :
    attach change s = .ok () { s with forest := next } := by
  unfold attach attachOr
  rw [forest_bind_run, attached]
  rfl

omit heading in
theorem attach_refused {change : Forest → Except AttachError Forest} {error : AttachError}
    (refused : change s.forest = .error error) :
    attach change s = stop s.cursor.position 0 (.parserImplementation error.message) s := by
  unfold attach attachOr
  rw [forest_bind_run, refused]
  rfl

/-- What the first parse can attach, the other one can. -/
theorem lock_attaching {owner item owner' item' : Nat} {place : Section} {isChild : Bool}
    (given : ahead s → W.Near s s' ∧ ∀ next, s.forest.attach owner item place isChild = .ok next →
      ∃ next', s'.forest.attach owner' item' place isChild = .ok next' ∧ W.Mirror next next') :
    W.Locked ahead id s s' (attach (·.attach owner item place isChild))
      (attach (·.attach owner' item' place isChild)) fun _ t t' => W.Stays s s' t t' := by
  cases attached : s.forest.attach owner item place isChild with
  | ok next =>
      obtain ⟨rfl, _⟩ := Forest.attach_ok attached
      have image : ahead s → s'.forest.attach owner' item' place isChild =
          .ok (s'.forest.link owner' item' place isChild) ∧ W.Near s s' ∧
          W.Mirror (s.forest.link owner item place isChild)
            (s'.forest.link owner' item' place isChild) := by
        intro isAhead
        obtain ⟨near, able⟩ := given isAhead
        obtain ⟨next', attached', mirror⟩ := able _ attached
        obtain ⟨rfl, _⟩ := Forest.attach_ok attached'
        exact ⟨attached', near, mirror⟩
      let linked : Parse Unit := modify fun t =>
        { t with forest := s'.forest.link owner' item' place isChild }
      have run : attach (·.attach owner item place isChild) s =
          .ok () { s with forest := s.forest.link owner item place isChild } := attach_run attached
      have lock : W.Locked ahead id s s' (attach (·.attach owner item place isChild)) linked
          fun _ t t' => W.Stays s s' t t' := by
        refine lock_ok run rfl later_link fun isAhead _ => ⟨rfl, ?_⟩
        obtain ⟨_, near, mirror⟩ := image (heading.later later_link isAhead)
        exact near.withForest mirror
      exact lock_other heading lock fun isAhead => attach_run (image isAhead).1
  | error error => exact (lock_broken heading).before (.refl s) (attach_refused attached) rfl

include lawful

theorem lock_attach {owner item : Nat} {place : Section} {isChild : Bool}
    (regular : isChild = true → place = .regular)
    (given : ahead s → W.Near s s' ∧ owner ≠ 0 ∧ item ≠ 0) :
    W.Locked ahead id s s' (attach (·.attach owner item place isChild))
      (attach (·.attach (W.rename owner) (W.rename item) place isChild))
      fun _ t t' => W.Stays s s' t t' := by
  refine lock_attaching heading fun isAhead => ?_
  obtain ⟨near, knownOwner, knownItem⟩ := given isAhead
  exact ⟨near, fun _ => near.forest.attach knownOwner knownItem regular (ascends_front lawful)⟩

/-- The root may be the owner, too. -/
theorem lock_attachTo {owner item : Nat} {isChild : Bool}
    (given : ahead s → W.Near s s' ∧ W.Hosts owner ∧ item ≠ 0) :
    W.Locked ahead id s s' (attach (·.attach owner item .regular isChild))
      (attach (·.attach (W.rename owner) (W.rename item) .regular isChild))
      fun _ t t' => W.Stays s s' t t' := by
  refine lock_attaching heading fun isAhead => ?_
  obtain ⟨near, hosts, knownItem⟩ := given isAhead
  refine ⟨near, fun _ => ?_⟩
  rcases hosts with knownOwner | ⟨rfl, founded⟩
  · exact near.forest.attach knownOwner knownItem (fun _ => rfl) (ascends_front lawful)
  · exact near.forest.attachRoot founded.linked knownItem founded.behind (ascends_front lawful)

section Attach

variable {owner item : Nat} (given : ahead s → W.Near s s' ∧ owner ≠ 0 ∧ item ≠ 0)

include given

theorem lock_addPrefix : W.Locked ahead id s s' (addPrefix owner item)
    (addPrefix (W.rename owner) (W.rename item)) fun _ t t' => W.Stays s s' t t' :=
  lock_attach lawful heading nofun given

theorem lock_addKeyword : W.Locked ahead id s s' (addKeyword owner item)
    (addKeyword (W.rename owner) (W.rename item)) fun _ t t' => W.Stays s s' t t' :=
  lock_attach lawful heading nofun given

theorem lock_addPostfix : W.Locked ahead id s s' (addPostfix owner item)
    (addPostfix (W.rename owner) (W.rename item)) fun _ t t' => W.Stays s s' t t' :=
  lock_attach lawful heading nofun given

theorem lock_addRegular : W.Locked ahead id s s' (addRegular owner item)
    (addRegular (W.rename owner) (W.rename item)) fun _ t t' => W.Stays s s' t t' :=
  lock_attach lawful heading nofun given

theorem lock_addChild : W.Locked ahead id s s' (addChild owner item)
    (addChild (W.rename owner) (W.rename item)) fun _ t t' => W.Stays s s' t t' :=
  lock_attach lawful heading (fun _ => rfl) given

end Attach

omit lawful

theorem lock_forM {f : α → β} {list : List α} {body : α → Parse Unit} {body' : β → Parse Unit}
    (given : ahead s → W.Near s s')
    (each : ∀ value ∈ list, ∀ t t', Later s t → (ahead t → ahead s ∧ W.Near t t') →
      W.Locked ahead id t t' (body value) (body' (f value)) fun _ u u' => W.Stays t t' u u') :
    W.Locked ahead id s s' (list.forM body) ((list.map f).forM body')
      fun _ t t' => W.Stays s s' t t' := by
  induction list generalizing s s' with
  | nil => exact lock_pure fun isAhead _ => ⟨rfl, (given isAhead).stays⟩
  | cons value rest ih =>
      apply (each value List.mem_cons_self s s' (.refl s) fun isAhead => ⟨isAhead, given isAhead⟩).bind heading
      intro _ t t' grown known
      have others := @ih t t' (fun isAhead => (known isAhead).2.near)
        fun value member u u' more both => each value (List.mem_cons_of_mem _ member) u u'
          (grown.trans more) fun isAhead => ⟨heading.later (grown.trans more) isAhead, (both isAhead).2⟩
      apply others.imp
      intro _ u u' more isAhead _ stays
      exact (known (heading.later more isAhead)).2.trans stays

omit heading in
theorem lock_option_forM {f : α → β} {value : Option α} {body : α → Parse Unit} {body' : β → Parse Unit}
    (given : ahead s → W.Near s s')
    (each : ∀ found, value = some found →
      W.Locked ahead id s s' (body found) (body' (f found)) fun _ t t' => W.Stays s s' t t') :
    W.Locked ahead id s s' (value.forM body) ((value.map f).forM body')
      fun _ t t' => W.Stays s s' t t' := by
  cases value with
  | none => exact lock_pure fun isAhead _ => ⟨rfl, (given isAhead).stays⟩
  | some found => exact each found rfl

end Items

/-! Gaps -/

/-- Faults that are alike cover places that correspond. -/
theorem covering_alike {code : Fault.Code} {faults faults' : Faults} (rigid : W.rigid)
    (alike : List.Forall₂ W.FaultAlike faults faults') (place : Nat) :
    (Faults.covering faults' (W.move place)).any (·.code == code) =
      (Faults.covering faults place).any (·.code == code) := by
  obtain ⟨distance, moves, _⟩ := lawful.distance rigid
  unfold Faults.covering
  induction alike with
  | nil => rfl
  | @cons fault fault' _ _ here _ ih =>
      obtain rfl := here rigid
      have covers : (W.carryFault fault).covers (W.move place) = fault.covers place := by
        simp only [Fault.covers, carryFault, Fault.stop, moves]
        grind
      have codes : (W.carryFault fault).code = fault.code := by
        simp only [Fault.code, carryFault]
        cases fault.cause <;> rfl
      simp only [List.filter_cons, covers]
      split <;> simp [codes, ih]

/-- What `skipGap` does behind the gap. -/
def reportUnclosed (s : ParseState) : Option Nat → Parse Unit
  | none => pure ()
  | some start =>
      if (s.faults.covering start).any (·.code == .commentNotClosed) then pure ()
      else
        let marker := (s.cursor.markers.multiline.map (·.2)).getD ""
        report start (s.cursor.text.size - start) (.commentNotClosed marker)

omit lawful in
theorem skipGap_run (s : ParseState) : skipGap s =
    reportUnclosed { s with cursor := s.cursor.skipGap.1 } s.cursor.skipGap.2
      { s with cursor := s.cursor.skipGap.1 } := rfl

theorem Beside.skipped (beside : W.Beside s s') :
    W.Beside { s with cursor := s.cursor.skipGap.1 } { s' with cursor := s'.cursor.skipGap.1 } ∧
      W.front s.cursor.skipGap.1.position ∧
      s.cursor.position ≤ s.cursor.skipGap.1.position := by
  have position : s.cursor.skipGap.1.position =
      W.grammar.comments.gapEnd W.text s.cursor.position := by
    rw [Cursor.position_skipGap, Cursor.gapEnd, beside.markers, beside.text]
  have positionOther : s'.cursor.skipGap.1.position =
      W.grammar.comments.gapEnd W.other (W.move s.cursor.position) := by
    rw [Cursor.position_skipGap, Cursor.gapEnd, beside.markersOther, beside.other, beside.position]
  obtain ⟨front, moved⟩ := lawful.gap s.cursor.position beside.rest
  have skipped : W.Beside { s with cursor := s.cursor.skipGap.1 }
      { s' with cursor := s'.cursor.skipGap.1 } := {
    text := s.cursor.text_skipGap.trans beside.text
    other := s'.cursor.text_skipGap.trans beside.other
    markers := s.cursor.markers_skipGap.trans beside.markers
    markersOther := s'.cursor.markers_skipGap.trans beside.markersOther
    forest := beside.forest
    faults := beside.faults
    rest := position.symm ▸ lawful.rest_of_front _ front
    position := by rw [positionOther, moved, position] }
  refine ⟨skipped, position.symm ▸ front, ?_⟩
  rw [position]
  exact CommentMarkers.le_gapEnd

include heading

omit lawful in
/-- A comment without end is a fault or within one. -/
theorem rigid_of_unclosed (unclosed : Option Nat) : Ends (reportUnclosed s unclosed) s
    (fun _ t => ahead t → unclosed.isSome → W.rigid) fun _ _ => True := by
  cases unclosed with
  | none => exact ends_pure fun _ => nofun
  | some place =>
      rw [reportUnclosed]
      split
      · rename_i covered
        obtain ⟨fault, member, _⟩ := List.any_eq_true.mp covered
        exact ends_pure fun isAhead _ => rigid_of_fault heading isAhead (List.mem_filter.mp member).1
      · exact ends_ok rfl fun isAhead _ =>
          rigid_of_fault heading isAhead (List.mem_append_right _ List.mem_cons_self)

theorem lock_reportUnclosed (unclosed : Option Nat)
    (given : ahead s → W.Near s s' ∧ (unclosed.isSome → W.rigid)) :
    W.Locked ahead id s s' (reportUnclosed s unclosed) (reportUnclosed s' (unclosed.map W.move))
      fun _ t t' => W.Stays s s' t t' := by
  cases unclosed with
  | none => exact lock_pure fun isAhead _ => ⟨rfl, (given isAhead).1.stays⟩
  | some place =>
      let marker (t : ParseState) := (t.cursor.markers.multiline.map (·.2)).getD ""
      have same : ahead s → reportUnclosed s' (some (W.move place)) =
          if (s.faults.covering place).any (·.code == .commentNotClosed) then pure ()
          else report (W.move place) (s'.cursor.text.size - W.move place)
            (.commentNotClosed (marker s')) := by
        intro isAhead
        obtain ⟨near, rigid⟩ := given isAhead
        rw [reportUnclosed, covering_alike lawful (rigid rfl) near.faults place]
      refine lock_other heading ?_ fun isAhead => congrFun (same isAhead) s'
      rw [reportUnclosed]
      split
      · exact lock_pure fun isAhead _ => ⟨rfl, (given isAhead).1.stays⟩
      · refine (lock_report heading fun isAhead => ?_).imp fun _ _ _ _ _ _ reported => reported.1
        obtain ⟨near, _⟩ := given isAhead
        refine ⟨near, fun rigid => ⟨rfl, ?_, ?_⟩⟩
        · obtain ⟨distance, moves, sizes⟩ := lawful.distance rigid
          rw [near.other, near.text, sizes, moves]
          omega
        · rw [near.markers]
          simp only [marker, near.markersOther]
          rfl

theorem lock_skipGap (given : ahead s → W.Beside s s') :
    W.Locked ahead id s s' skipGap skipGap fun _ t t' => W.Beside t t' ∧
      W.front t.cursor.position ∧ s.cursor.position ≤ t.cursor.position := by
  let skipped : ParseState := { s with cursor := s.cursor.skipGap.1 }
  let skipped' : ParseState := { s' with cursor := s'.cursor.skipGap.1 }
  have back : ahead skipped → ahead s := heading.later (later_moved s _)
  have lock : W.Locked ahead id skipped skipped' (reportUnclosed skipped s.cursor.skipGap.2)
      (reportUnclosed skipped' s'.cursor.skipGap.2) fun _ t t' => W.Stays skipped skipped' t t' := by
    apply lock_given (s.cursor.skipGap.2.isSome → W.rigid)
    · apply lock_other (heading.given _)
      · apply lock_reportUnclosed lawful (heading.given _) s.cursor.skipGap.2
        exact fun known => ⟨((given (back known.1)).skipped lawful).1.toNear, known.2⟩
      · rintro ⟨isAhead, rigid⟩
        have beside := given (back isAhead)
        have loose : W.rigid ∨ s.cursor.skipGap.2 = none := by
          cases open_ : s.cursor.skipGap.2 with
          | none => exact Or.inr rfl
          | some place => exact Or.inl (rigid (by rw [open_]; rfl))
        rw [lawful.unclosed s.cursor s'.cursor beside.text beside.other beside.markers
          beside.markersOther beside.rest beside.position loose]
    · exact (rigid_of_unclosed heading _).imp (fun _ _ rigid isAhead _ => rigid isAhead)
        fun _ _ _ rigid _ _ => rigid
  apply (lock.imp ?_).before (later_moved s _) (skipGap_run s) (skipGap_run s')
  intro _ t t' grown isAhead _ stays
  obtain ⟨beside, front, further⟩ := (given (back (heading.later grown isAhead))).skipped lawful
  exact ⟨beside.of_stays stays, stays.cursor ▸ front, stays.cursor ▸ further⟩

end ExprLang.Tandem
