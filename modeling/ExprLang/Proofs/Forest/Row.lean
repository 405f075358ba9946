import ExprLang.Proofs.Forest.Layout
import ExprLang.Language.Written

/-!
Rows. What the parser holds in its hands are detached items and words of operators that have no
token yet, in text order: each starts where the one before has stopped, or later.
-/

namespace ExprLang

inductive Held where
  | item (id : Nat)
  /-- An item that has no parts yet. -/
  | hollow (id : Nat)
  | word (start : Nat) (text : String)

namespace Held

def id? : Held → Option Nat
  | item id | hollow id => some id
  | word .. => none

def ids (row : List Held) : List Nat := row.filterMap id?

/-- The spans of the words. -/
def wordSpans (row : List Held) : List (Nat × Nat) :=
  row.filterMap fun
    | word start text => some (start, start + text.length)
    | _ => none

def start (forest : Forest) : Held → Nat
  | item id | hollow id => forest.start id
  | word start _ => start

def stop (forest : Forest) : Held → Nat
  | item id => forest.stop id
  | hollow id => forest.start id
  | word start text => start + text.length

/-- Whatever is held covers something, but for an item that has no parts yet. -/
def Stands (forest : Forest) : Held → Prop
  | item id => forest.start id < forest.stop id
  | hollow id => forest.parts id = {} ∧ forest.stop id = forest.start id ∧
      ∃ item, forest.get? id = some item ∧ item.isToken = false
  | word _ text => 0 < text.length

@[simp]
theorem ids_nil : ids [] = [] := rfl

@[simp]
theorem ids_item (id : Nat) (row : List Held) : ids (item id :: row) = id :: ids row := rfl

@[simp]
theorem ids_hollow (id : Nat) (row : List Held) : ids (hollow id :: row) = id :: ids row := rfl

@[simp]
theorem ids_word (start : Nat) (text : String) (row : List Held) :
    ids (word start text :: row) = ids row := rfl

@[simp]
theorem ids_append (left right : List Held) : ids (left ++ right) = ids left ++ ids right :=
  List.filterMap_append

@[simp]
theorem wordSpans_nil : wordSpans [] = [] := rfl

@[simp]
theorem wordSpans_item (id : Nat) (row : List Held) : wordSpans (item id :: row) = wordSpans row := rfl

@[simp]
theorem wordSpans_hollow (id : Nat) (row : List Held) : wordSpans (hollow id :: row) = wordSpans row := rfl

@[simp]
theorem wordSpans_word (start : Nat) (text : String) (row : List Held) :
    wordSpans (word start text :: row) = (start, start + text.length) :: wordSpans row := rfl

@[simp]
theorem wordSpans_append (left right : List Held) : wordSpans (left ++ right) = wordSpans left ++ wordSpans right :=
  List.filterMap_append

@[simp]
theorem ids_map_item (ids : List Nat) : Held.ids (ids.map item) = ids := by
  induction ids with
  | nil => rfl
  | cons id rest ih => rw [List.map_cons, ids_item, ih]

@[simp]
theorem wordSpans_map_item (ids : List Nat) : wordSpans (ids.map item) = [] := by
  induction ids with
  | nil => rfl
  | cons id rest ih => rw [List.map_cons, wordSpans_item, ih]

end Held

namespace Forest

open Held (item hollow word ids)

/-- The row stands between `a` and `b`. -/
def Row (forest : Forest) : Nat → List Held → Nat → Prop
  | a, [], b => a ≤ b
  | a, held :: rest, b =>
      a ≤ held.start forest ∧ held.Stands forest ∧ Row forest (held.stop forest) rest b

variable {forest other : Forest} {a b c : Nat} {left right row : List Held}

theorem start_le_stop_of_stands {held : Held} (stands : held.Stands forest) :
    held.start forest ≤ held.stop forest := by
  cases held with
  | item id => exact Nat.le_of_lt stands
  | hollow id => exact Nat.le_refl _
  | word start text => exact Nat.le_add_right _ _

theorem Row.le (placed : forest.Row a row b) : a ≤ b := by
  induction row generalizing a with
  | nil => exact placed
  | cons held rest ih =>
      have inside := start_le_stop_of_stands placed.2.1
      have later := ih placed.2.2
      have first := placed.1
      omega

theorem Row.weaken {lower upper : Nat} (placed : forest.Row a row b) (below : lower ≤ a)
    (above : b ≤ upper) : forest.Row lower row upper := by
  induction row generalizing a lower with
  | nil =>
      have inside : a ≤ b := placed
      exact Nat.le_trans below (Nat.le_trans inside above)
  | cons held rest ih =>
      exact ⟨Nat.le_trans below placed.1, placed.2.1, ih placed.2.2 (Nat.le_refl _)⟩

theorem row_append : forest.Row a (left ++ right) c ↔
    ∃ b, forest.Row a left b ∧ forest.Row b right c := by
  induction left generalizing a with
  | nil =>
      constructor
      · exact fun placed => ⟨a, Nat.le_refl a, placed⟩
      · rintro ⟨b, inside, placed⟩
        exact placed.weaken inside (Nat.le_refl c)
  | cons held rest ih =>
      constructor
      · rintro ⟨first, stands, placed⟩
        obtain ⟨b, ahead, behind⟩ := ih.mp placed
        exact ⟨b, ⟨first, stands, ahead⟩, behind⟩
      · rintro ⟨b, ⟨first, stands, ahead⟩, behind⟩
        exact ⟨first, stands, ih.mpr ⟨b, ahead, behind⟩⟩

/-- What stands in a row for a forest stands in it for another one that gives its items the same
spans and parts. -/
theorem Row.congr (placed : forest.Row a row b)
    (same : ∀ held ∈ row, held.start other = held.start forest ∧
      held.stop other = held.stop forest ∧ (held.Stands forest → held.Stands other)) :
    other.Row a row b := by
  induction row generalizing a with
  | nil => exact placed
  | cons held rest ih =>
      obtain ⟨starts, stops, stands⟩ := same held List.mem_cons_self
      refine ⟨starts ▸ placed.1, stands placed.2.1, stops ▸ ?_⟩
      exact ih placed.2.2 fun later member => same later (List.mem_cons_of_mem _ member)

/-- Each of the row lies between its ends. -/
theorem Row.inside (placed : forest.Row a row b) {held : Held} (member : held ∈ row) :
    a ≤ held.start forest ∧ held.Stands forest ∧ held.stop forest ≤ b := by
  obtain ⟨left, right, rfl⟩ := List.append_of_mem member
  obtain ⟨m, ahead, first, stands, behind⟩ := row_append.mp placed
  exact ⟨Nat.le_trans ahead.le first, stands, behind.le⟩

theorem stop_of_stands {held : Held} {id : Nat} (isId : held.id? = some id)
    (stands : held.Stands forest) :
    held.start forest = forest.start id ∧ held.stop forest = forest.stop id := by
  cases held with
  | item id => cases isId; exact ⟨rfl, rfl⟩
  | hollow id => cases isId; exact ⟨rfl, stands.2.1.symm⟩
  | word start text => cases isId

/-- The items of a row stand one behind the other. -/
theorem Row.laid {ids : List Nat} (placed : forest.Row a (ids.map item) b) :
    ids.Pairwise forest.Before := by
  induction ids generalizing a with
  | nil => exact List.Pairwise.nil
  | cons id rest ih =>
      obtain ⟨_, stands, behind⟩ := placed
      refine List.Pairwise.cons (fun other member => ?_) (ih behind)
      have later := (behind.inside (List.mem_map_of_mem (f := item) member)).1
      exact ⟨Nat.lt_of_lt_of_le stands later, later⟩

/-- An item of the row lies between its ends. -/
theorem Row.inside_id (placed : forest.Row a row b) {id : Nat} (member : id ∈ ids row) :
    a ≤ forest.start id ∧ forest.stop id ≤ b := by
  obtain ⟨held, inRow, isId⟩ := List.mem_filterMap.mp member
  obtain ⟨first, stands, last⟩ := placed.inside inRow
  obtain ⟨starts, stops⟩ := stop_of_stands isId stands
  exact ⟨starts ▸ first, stops ▸ last⟩

/-- Of two items of the row one stands behind the other. -/
theorem Row.apart (placed : forest.Row a row b) {x y : Nat} (inX : x ∈ ids row) (inY : y ∈ ids row)
    (different : x ≠ y) : forest.stop x ≤ forest.start y ∨ forest.stop y ≤ forest.start x := by
  induction row generalizing a with
  | nil => cases inX
  | cons held rest ih =>
      obtain ⟨_, stands, behind⟩ := placed
      have member : ∀ {id : Nat}, id ∈ ids (held :: rest) → held.id? = some id ∨ id ∈ ids rest := by
        intro id inRow
        obtain ⟨other, inside, isId⟩ := List.mem_filterMap.mp inRow
        rcases List.mem_cons.mp inside with rfl | later
        · exact Or.inl isId
        · exact Or.inr (List.mem_filterMap.mpr ⟨other, later, isId⟩)
      rcases member inX with isX | laterX
      · rcases member inY with isY | laterY
        · exact absurd (Option.some.inj (isX.symm.trans isY)) different
        · rw [← (stop_of_stands isX stands).2]
          exact Or.inl (behind.inside_id laterY).1
      · rcases member inY with isY | laterY
        · rw [← (stop_of_stands isY stands).2]
          exact Or.inr (behind.inside_id laterX).1
        · exact ih behind laterX laterY

end Forest

end ExprLang
