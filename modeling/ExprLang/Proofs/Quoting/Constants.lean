import ExprLang.Proofs.Fields.Agreement
import ExprLang.Proofs.Quoting.Decode

/-!
Text constants of a forest. A text constant is a leaf that keeps its characters and what they are decoded
to. Making one never fails, and what the forest tells of its constants stays true whatever else is done
to it.
-/

namespace ExprLang

variable {escape : TextEscape}

namespace Text

variable {text : Text} {start : Nat} {c : Char} {chars : List Char}

theorem rest_eq_drop (text : Text) (start : Nat) : text.rest start = text.toList.drop start := by
  simp [rest, List.extract_eq_take_drop]

theorem rest_succ (here : text.rest start = c :: chars) : text.rest (start + 1) = chars := by
  rw [rest_eq_drop] at here ⊢
  rw [← List.tail_drop, here, List.tail_cons]

theorem rest_of_getElem (here : text[start]? = some c) : text.rest start = c :: text.rest (start + 1) := by
  obtain ⟨inside, rfl⟩ := Array.getElem?_eq_some_iff.mp here
  rw [rest_eq_drop, rest_eq_drop, List.drop_eq_getElem_cons (by simpa using inside), Array.getElem_toList]

theorem toList_slice (text : Text) (start count : Nat) :
    (text.slice start (start + count)).toList = (text.rest start).take count := by
  simp [slice, rest_eq_drop, List.extract_eq_take_drop]

end Text

/-- A constant is what the characters behind its opening quote are decoded to. -/
def ItemKind.Decoded (escape : TextEscape) : ItemKind → Prop
  | .constantText raw text quote closed => ∃ chars, raw.toList = quote :: chars ∧
      Constant.decode escape quote chars = ⟨text.toList, chars.length, closed⟩
  | _ => True

namespace Forest

variable {forest : Forest} {id : Nat}

def Decoded (escape : TextEscape) (forest : Forest) : Prop :=
  ∀ id kind, forest.kind? id = some kind → kind.Decoded escape

theorem Decoded.push {new : Item} (decoded : forest.Decoded escape) (isDecoded : new.kind.Decoded escape) :
    (forest.push new).2.Decoded escape := by
  intro id kind found
  rw [kind?, get_push] at found
  by_cases isNew : id = forest.size
  · rw [if_pos isNew] at found
    exact Option.some.inj found ▸ isDecoded
  · rw [if_neg isNew] at found
    exact decoded id kind found

theorem Decoded.link {owner item : Nat} {place : Section} {isChild : Bool}
    (decoded : forest.Decoded escape) : (forest.link owner item place isChild).Decoded escape := by
  intro id kind found
  rw [kind_link] at found
  exact decoded id kind found

theorem Decoded.changeKind {change : ItemKind → ItemKind} (decoded : forest.Decoded escape)
    (keeps : ∀ kind, kind.Decoded escape → (change kind).Decoded escape) :
    (forest.modify id fun item => { item with kind := change item.kind }).Decoded escape := by
  intro other kind found
  rw [kind_changeKind] at found
  by_cases isChanged : id = other
  · rw [if_pos isChanged] at found
    obtain ⟨before, foundBefore, rfl⟩ := Option.map_eq_some_iff.mp found
    exact keeps before (decoded other before foundBefore)
  · rw [if_neg isChanged] at found
    exact decoded other kind found

theorem Decoded.truncate {count : Nat} (decoded : forest.Decoded escape) :
    (forest.truncate count).Decoded escape := by
  by_cases cut : count < forest.size
  · intro id kind found
    by_cases inside : id < count
    · rw [kind?, get_truncate inside cut] at found
      apply decoded id kind
      simpa [kind?] using found
    · rw [kind?, get_truncate_outside inside cut] at found
      cases found
  · rw [truncate_of_le (Nat.le_of_not_lt cut)]
    exact decoded

section Leaf

variable {kind : ItemKind} {token : TokenKind} {word : String} {start : Nat}

/-- Two new items, the second one a token and the only part of the first one. -/
def addLeaf (forest : Forest) (kind : ItemKind) (token : TokenKind) (word : String) (start : Nat) :
    Forest :=
  ((forest.create kind start).2.createToken token word start).2.link forest.size (forest.size + 1)
    .regular false

/-- The token of a leaf is never refused. -/
theorem attach_leaf (complex : kind.isToken = false) :
    ((forest.create kind start).2.createToken token word start).2.addRegular forest.size
      (forest.size + 1) = .ok (forest.addLeaf kind token word start) := by
  have owner : ((forest.create kind start).2.createToken token word start).2.get? forest.size =
      some { start, length := 0, kind } := by
    rw [create_complex complex, createToken, get_push_old _ (by simp), get_push_new]
  have part : ((forest.create kind start).2.createToken token word start).2.get? (forest.size + 1) =
      some { start, length := word.length, kind := .token token word } := by
    rw [create_complex complex, createToken, get_push, if_pos (by simp)]
  apply attach_of_fits
  · constructor
    · exact ⟨_, owner, complex⟩
    · exact get_lt_size part
    · exact (Nat.succ_ne_self _).symm
    · exact parent_of_get owner
    · exact parent_of_get part
  · exact fits_hollow (parts_of_get owner) _ _

theorem kind_addLeaf (complex : kind.isToken = false) :
    (forest.addLeaf kind token word start).kind? forest.size = some kind := by
  rw [addLeaf, kind_link, create_complex complex, createToken, kind_push_old (by simp), kind_push_new]

theorem Decoded.addLeaf (decoded : forest.Decoded escape) (complex : kind.isToken = false)
    (isDecoded : kind.Decoded escape) : (forest.addLeaf kind token word start).Decoded escape := by
  rw [Forest.addLeaf, create_complex complex, createToken]
  have pushed : (forest.push { start, length := 0, kind }).2.Decoded escape := decoded.push isDecoded
  apply Decoded.link
  apply pushed.push
  trivial

end Leaf

end Forest

namespace Parse

variable {s : ParseState} {kind : ItemKind} {token : TokenKind} {word : String} {start : Nat}

theorem ends_createLeaf_added (complex : kind.isToken = false) :
    Ends (createLeaf kind token word start) s (fun item t => item = s.forest.size ∧
      t = { s with forest := s.forest.addLeaf kind token word start }) fun _ _ => False := by
  have size : (s.forest.create kind start).2.size = s.forest.size + 1 := by
    rw [Forest.create_complex complex, Forest.size_push]
  unfold createLeaf
  rw [ends_create_bind, ends_createToken_bind, size]
  exact ends_bind (ends_ok (Tandem.attach_run (Forest.attach_leaf complex)) (ends_pure ⟨rfl, rfl⟩))

variable {quote : Char} {constant : Constant}

/-- The item of a constant that starts at the cursor. -/
def constantKind (s : ParseState) (quote : Char) (constant : Constant) : ItemKind :=
  let start := s.cursor.position
  .constantText (s.cursor.text.slice start (start + 1 + constant.length)) (String.ofList constant.text)
    quote constant.closed

/-- The state behind the constant. -/
def behindConstant (s : ParseState) (quote : Char) (constant : Constant) : ParseState :=
  let start := s.cursor.position
  let stop := start + 1 + constant.length
  { s with
    cursor := s.cursor.moveTo stop
    forest := s.forest.addLeaf (constantKind s quote constant) .text (s.cursor.text.slice start stop) start
    faults := if constant.closed then s.faults
      else s.faults ++ [⟨start, stop - start, .constantTextNotClosed quote, false⟩] }

theorem kind_behindConstant :
    (behindConstant s quote constant).forest.kind? s.forest.size = some (constantKind s quote constant) :=
  Forest.kind_addLeaf rfl

theorem ends_textConstant_behind (grammar : Grammar) (quote : Char) :
    Ends (textConstant grammar quote) s (fun item t => item = s.forest.size ∧
      t = behindConstant s quote (Constant.decode grammar.textEscape quote
        (s.cursor.text.rest (s.cursor.position + 1)))) fun _ _ => False := by
  unfold textConstant
  simp only [ends_position_bind, ends_text_bind, ends_slice_bind]
  generalize Constant.decode grammar.textEscape quote _ = constant
  refine (ends_createLeaf_added rfl).bind ?_ fun _ _ never => never
  rintro item t ⟨rfl, rfl⟩
  unfold behindConstant constantKind
  cases constant.closed with
  | true => exact ends_bind (ends_ok rfl (ends_pure ⟨rfl, rfl⟩))
  | false => exact ends_bind (ends_ok rfl (ends_bind (ends_ok rfl (ends_pure ⟨rfl, rfl⟩))))

/-- The characters of a constant are decoded to its text. -/
theorem decoded_constantKind (escape : TextEscape)
    (here : s.cursor.text[s.cursor.position]? = some quote) :
    (constantKind s quote (Constant.decode escape quote
      (s.cursor.text.rest (s.cursor.position + 1)))).Decoded escape := by
  have first := Text.rest_of_getElem here
  generalize s.cursor.text.rest (s.cursor.position + 1) = chars at first ⊢
  have bound := Constant.length_decode_le escape quote chars
  refine ⟨chars.take (Constant.decode escape quote chars).length, ?_, ?_⟩
  · rw [Nat.add_assoc, Text.toList_slice, first, Nat.add_comm 1, List.take_succ_cons]
  · rw [Constant.decode_take, String.toList_ofList, List.length_take, Nat.min_eq_left bound]

end Parse

end ExprLang
