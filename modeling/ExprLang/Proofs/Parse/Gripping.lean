import ExprLang.Proofs.Parse.Operands
import ExprLang.Proofs.Parse.Siting

/-!
Ways to hold a row. While operators are put together with their operands, four things are done with
what is held: an item without parts is put in front of something, a word gets its token, and an item
takes what stands behind it or, if it has no parts yet, in front of it. What is said of a row goes on
being true if it goes on being true with each of them.
-/

namespace ExprLang

open Held (item hollow word ids)

open Parse ParseState

/-- `holds` says something of the row in the hands of the parser that lasts while the items from `floor`
on take those next to them. -/
structure Grip (floor : Nat) (holds : ParseState → List Held → Prop) : Prop where
  lined : ∀ {s row}, holds s row → ∃ a b, s.forest.LinedUp a row b
  room : ∀ {s row}, holds s row → floor ≤ s.forest.size
  hollowed : ∀ {s held} {kind : ItemKind} (left right : List Held), kind.isPlain = true →
    holds s (left ++ held :: right) →
    holds (s.withForest (s.forest.create kind (held.start s.forest)).2)
      (left ++ hollow s.forest.size :: held :: right)
  named : ∀ {s start text} (left right : List Held), holds s (left ++ word start text :: right) →
    holds (s.withForest (s.forest.createToken .operatorNamePart text start).2)
      (left ++ item s.forest.size :: right)
  behind : ∀ {s held owner part place} (left right : List Held) (isChild : Bool), floor ≤ owner →
    holds s (left ++ [held, item part] ++ right) → held.id? = some owner →
    s.forest.Open place owner → (isChild = true → place = .regular) →
    s.forest.attach owner part place isChild = .ok (s.forest.link owner part place isChild) ∧
      holds (s.withForest (s.forest.link owner part place isChild)) (left ++ item owner :: right)
  front : ∀ {s owner part place} (left right : List Held) (isChild : Bool), floor ≤ owner →
    holds s (left ++ [item part, hollow owner] ++ right) → (isChild = true → place = .regular) →
    s.forest.attach owner part place isChild = .ok (s.forest.link owner part place isChild) ∧
      holds (s.withForest (s.forest.link owner part place isChild)) (left ++ item owner :: right)

/-- It lasts as well when a fault of something in the row is noted. -/
structure LoggingGrip (floor : Nat) (holds : ParseState → List Held → Prop) : Prop extends
    Grip floor holds where
  noted : ∀ {s row cause} (start length : Nat), Fault.Cause.Quiet cause →
    Fault.Among s.forest row ⟨start, length, cause, false⟩ → holds s row →
    holds { s with faults := s.faults ++ [⟨start, length, cause, false⟩] } row

/-- All that the parser holds lasts. -/
theorem grip_holding (grammar : Grammar) (full : Prop) (base : ParseState) (b : Nat) :
    Grip 0 fun s row => Holding grammar full base s row b where
  lined holding := ⟨_, _, holding.lined⟩
  room _ := Nat.zero_le _
  hollowed left _ plain holding := by
    obtain ⟨m, ahead, further, stands, behind⟩ := Forest.row_append.mp holding.placed
    refine holding.hollowed left _ _ _ (Forest.isToken_of_isPlain plain) ?_ ?_
      ⟨Nat.le_refl _, stands, behind⟩
    · rintro _ category trigger name accepts rfl
      cases plain
    · exact ahead.weaken (Nat.le_refl _) further
  named _ _ holding := holding.wordToken .operatorNamePart nofun
  behind _ _ _ _ holding isOwner isOpen regular := holding.attach_behind isOwner isOpen regular
  front _ _ _ _ holding regular := (holding.attach_front regular).2

/-- What is reported of things in the row is in the text if the row is. -/
theorem ParseState.Holding.located {grammar : Grammar} {full : Prop} {base s : ParseState} {row : List Held}
    {b : Nat} {fault : Fault} (holding : Holding grammar full base s row b)
    (inside : b ≤ base.cursor.text.size) (among : fault.Among s.forest row) :
    fault.Located s.cursor.text.size where
  inside := by
    obtain ⟨held, inRow, within⟩ := among.reached
    rw [holding.text]
    exact Nat.le_trans within (Nat.le_trans (holding.placed.inside inRow).2.2 inside)
  ahead := among.ahead

theorem loggingGrip_holding (grammar : Grammar) (base : ParseState) {full : Prop} {b : Nat}
    (inside : full → b ≤ base.cursor.text.size) :
    LoggingGrip 0 fun s row => Holding grammar full base s row b where
  toGrip := grip_holding grammar full base b
  noted start length quiet among holding := holding.fault start length quiet fun strict =>
    holding.located (inside strict) among

namespace Grip

variable {floor owner part : Nat} {holds : ParseState → List Held → Prop} {s : ParseState}
  {row left right : List Held} {held : Held} {place : Section} (grip : Grip floor holds)

include grip

theorem linked (holding : holds s row) : s.forest.Linked := by
  obtain ⟨_, _, lined⟩ := grip.lined holding
  exact lined.linked

theorem known (holding : holds s row) {id : Nat} (member : id ∈ ids row) : id < s.forest.size := by
  obtain ⟨_, _, lined⟩ := grip.lined holding
  exact lined.known id member

theorem attachable_behind (holding : holds s (left ++ [held, item part] ++ right))
    (isOwner : held.id? = some owner) (isOpen : s.forest.Open place owner) :
    s.forest.Attachable owner part := by
  obtain ⟨_, _, lined⟩ := grip.lined holding
  exact lined.attachable_behind isOwner isOpen.complex

theorem ends_behind (left right : List Held) (isChild : Bool) (above : floor ≤ owner)
    (holding : holds s (left ++ [held, item part] ++ right)) (isOwner : held.id? = some owner)
    (isOpen : s.forest.Open place owner) (regular : isChild = true → place = .regular) :
    Ends (attach (·.attach owner part place isChild)) s
      (fun _ t => t = s.withForest (s.forest.link owner part place isChild) ∧ owner ≠ part ∧
        holds t (left ++ item owner :: right)) (fun _ _ => False) := by
  obtain ⟨accepted, after⟩ := grip.behind left right isChild above holding isOwner isOpen regular
  exact ends_attach accepted
    ⟨rfl, (grip.attachable_behind holding isOwner isOpen).different, after⟩

theorem ends_front (left right : List Held) (place : Section) (isChild : Bool) (above : floor ≤ owner)
    (holding : holds s (left ++ [item part, hollow owner] ++ right))
    (regular : isChild = true → place = .regular) :
    Ends (attach (·.attach owner part place isChild)) s
      (fun _ t => t = s.withForest (s.forest.link owner part place isChild) ∧ owner ≠ part ∧
        holds t (left ++ item owner :: right)) (fun _ _ => False) := by
  obtain ⟨accepted, after⟩ := grip.front left right isChild above holding regular
  obtain ⟨_, _, lined⟩ := grip.lined holding
  exact ends_attach accepted ⟨rfl, lined.attachable_front.different, after⟩

/-- An item that is going to own what stands at `start`. -/
theorem hollow_before (left right : List Held) {kind : ItemKind} {first start : Nat}
    (plain : kind.isPlain = true) (holding : holds s (left ++ item first :: right))
    (starts : s.forest.start first = start) :
    holds (s.withForest (s.forest.create kind start).2)
      (left ++ hollow s.forest.size :: item first :: right) := by
  subst starts
  exact grip.hollowed left right plain holding

end Grip

end ExprLang
