import ExprLang.Proofs.Forest.Sound

/-!
The walk from left to right over what stands below an item: prefixes, keywords, regular parts,
postfixes, and below each of them in the same way. In a laid forest it meets the tokens in text
order.
-/

namespace ExprLang.Forest

open Relation

/-- Steps down from an item, as many as are given at most. -/
def tokensWithin (forest : Forest) : Nat → ItemId → List ItemId
  | 0, _ => []
  | steps + 1, id =>
      match forest.get? id with
      | none => []
      | some item =>
          if item.isToken then [id] else item.parts.all.flatMap (tokensWithin forest steps)

/-- The tokens at or below an item, from left to right. -/
def tokens (forest : Forest) (id : ItemId) : List ItemId := forest.tokensWithin forest.size id

def IsToken (forest : Forest) (id : ItemId) : Prop :=
  ∃ item, forest.get? id = some item ∧ item.isToken = true

def span (forest : Forest) (id : ItemId) : Nat × Nat := (forest.start id, forest.stop id)

variable {forest : Forest} {id token steps : Nat}

theorem IsToken.parts (linked : forest.Linked) (isToken : forest.IsToken id) :
    (forest.parts id).all = [] := by
  obtain ⟨item, found, token⟩ := isToken
  rw [parts_of_get found]
  exact linked.token id item found token

theorem IsToken.named (linked : forest.Linked) (isToken : forest.IsToken id) :
    (forest.parts id).named = [] := by
  have none := isToken.parts linked
  have regular : (forest.parts id).regular = [] := by
    simp only [Parts.all, List.append_eq_nil_iff] at none
    exact none.1.2
  have children := linked.children id
  rw [regular, List.sublist_nil] at children
  rw [Parts.named, none, children]
  rfl

theorem below_token (linked : forest.Linked) (isToken : forest.IsToken id)
    (path : ReflTransGen forest.Owns id token) : token = id := by
  rcases path.cases_head with rfl | ⟨part, owns, _⟩
  · rfl
  · rw [Owns, isToken.parts linked] at owns
    cases owns

/-- With a step for each item at or below `id` the walk meets every token there, and nothing else. -/
theorem mem_tokensWithin (linked : forest.Linked) (enough : forest.weight id ≤ steps) :
    token ∈ forest.tokensWithin steps id ↔
      ReflTransGen forest.Owns id token ∧ forest.IsToken token := by
  induction steps generalizing id with
  | zero =>
      -- With no steps left there is no item here, and nothing below.
      have absent : ¬ id < forest.size := fun inside =>
        absurd (weight_pos inside) (Nat.not_lt_of_le enough)
      constructor
      · intro member
        cases member
      · rintro ⟨path, item, found, _⟩
        rcases path.cases_head with rfl | ⟨_, owns, _⟩
        · exact absurd (get_lt_size found) absent
        · exact absurd (owner_lt_size owns) absent
  | succ steps ih =>
      unfold tokensWithin
      cases found : forest.get? id with
      | none =>
          constructor
          · intro member
            cases member
          · rintro ⟨path, item, there, _⟩
            rcases path.cases_head with rfl | ⟨_, owns, _⟩
            · exact absurd there (by simp [found])
            · obtain ⟨_, here⟩ := get_of_lt (owner_lt_size owns)
              exact absurd here (by simp [found])
      | some item =>
          simp only
          split
          -- A token is the only one below itself.
          · rename_i isToken
            rw [List.mem_singleton]
            constructor
            · rintro rfl
              exact ⟨ReflTransGen.refl, item, found, isToken⟩
            · exact fun below => below_token linked ⟨item, found, isToken⟩ below.1
          -- A token below is below one of the parts.
          · rename_i complex
            have inner : ∀ part, forest.Owns id part → (token ∈ forest.tokensWithin steps part ↔
                ReflTransGen forest.Owns part token ∧ forest.IsToken token) := fun part owns =>
              ih (Nat.le_of_lt_succ (Nat.lt_of_lt_of_le (linked.weight_lt owns) enough))
            rw [List.mem_flatMap]
            constructor
            · rintro ⟨part, member, inside⟩
              have owns := (owns_of_get found).mpr member
              obtain ⟨path, isToken⟩ := (inner part owns).mp inside
              exact ⟨ReflTransGen.head owns path, isToken⟩
            · rintro ⟨path, isToken⟩
              rcases path.cases_head with rfl | ⟨part, owns, path⟩
              · obtain ⟨other, there, isToken⟩ := isToken
                obtain rfl : item = other := Option.some.inj (found.symm.trans there)
                exact absurd isToken complex
              · exact ⟨part, (owns_of_get found).mp owns, (inner part owns).mpr ⟨path, isToken⟩⟩

theorem mem_tokens (linked : forest.Linked) :
    token ∈ forest.tokens id ↔ ReflTransGen forest.Owns id token ∧ forest.IsToken token :=
  mem_tokensWithin linked (weight_le_size id)

/-- What is met later stands further behind. -/
theorem tokensWithin_inOrder (linked : forest.Linked) (laid : forest.Laid)
    (enough : forest.weight id ≤ steps) :
    (forest.tokensWithin steps id).Pairwise fun x y => forest.stop x ≤ forest.start y := by
  induction steps generalizing id with
  | zero => exact List.Pairwise.nil
  | succ steps ih =>
      unfold tokensWithin
      cases found : forest.get? id with
      | none => exact List.Pairwise.nil
      | some item =>
          simp only
          split
          · exact List.pairwise_singleton _ _
          · have fewer : ∀ part ∈ item.parts.all, forest.weight part ≤ steps := fun part member =>
              Nat.le_of_lt_succ
                (Nat.lt_of_lt_of_le (linked.weight_lt ((owns_of_get found).mpr member)) enough)
            rw [List.pairwise_flatMap]
            refine ⟨fun part member => ih (fewer part member), ?_⟩
            have laidParts := laid id
            rw [parts_of_get found] at laidParts
            refine laidParts.imp_of_mem ?_
            intro x y inX inY before a belowX b belowY
            have coversX := span_of_below linked laid
              ((mem_tokensWithin linked (fewer x inX)).mp belowX).1
            have coversY := span_of_below linked laid
              ((mem_tokensWithin linked (fewer y inY)).mp belowY).1
            exact Nat.le_trans coversX.2 (Nat.le_trans before.2 coversY.1)

theorem tokens_inOrder (linked : forest.Linked) (laid : forest.Laid) (id : Nat) :
    (forest.tokens id).Pairwise fun x y => forest.stop x ≤ forest.start y :=
  tokensWithin_inOrder linked laid (weight_le_size id)

/-! Spans -/

theorem span_of_token (linked : forest.Linked) {item : Item} (found : forest.get? id = some item)
    (isToken : item.isToken = true) :
    forest.start id = item.start ∧ forest.stop id = item.start + item.length := by
  have none := linked.token id item found isToken
  rw [linked.start_eq found, linked.stop_eq found, none]
  exact ⟨rfl, rfl⟩

/-- A token of the text is not empty and reads as the text does there. -/
theorem Exact.written {text : Text} (holds : forest.Exact text) (linked : forest.Linked)
    (isToken : forest.IsToken id) :
    forest.start id < forest.stop id ∧ ∃ kind,
      forest.kind? id = some (.token kind (text.slice (forest.start id) (forest.stop id))) := by
  obtain ⟨item, found, isToken⟩ := isToken
  obtain ⟨starts, stops⟩ := span_of_token linked found isToken
  cases kind : item.kind with
  | token which word =>
      obtain ⟨filled, long, same⟩ := holds id item which word found kind
      rw [starts, stops, long]
      refine ⟨Nat.lt_add_of_pos_right filled, which, ?_⟩
      rw [kind_of_get found, kind, ← same]
  | _ => rw [Item.isToken, kind] at isToken; cases isToken

theorem tokenSpans_eq (forest : Forest) :
    forest.tokenSpans =
      (List.range forest.size).filterMap fun id => (forest.get? id).bind Item.tokenSpan? := by
  have each : forest.items.toList.map Item.tokenSpan? =
      (List.range forest.size).map fun id => (forest.get? id).bind Item.tokenSpan? := by
    refine List.ext_getElem (by simp [size]) fun id inItems inRange => ?_
    have inside : id < forest.items.size := by simpa using inItems
    simp [get?, Array.getElem?_eq_getElem inside]
  have flat := congrArg (List.filterMap fun span => span) each
  rw [List.filterMap_map, List.filterMap_map] at flat
  exact flat

/-- If all tokens stand below one item, the walk from there meets the spans of all of them. -/
theorem tokenSpans_perm (linked : forest.Linked) (laid : forest.Laid)
    (filled : ∀ id, forest.IsToken id → forest.start id < forest.stop id) {root : Nat}
    (reached : ∀ id, forest.IsToken id → ReflTransGen forest.Owns root id) :
    forest.tokenSpans.Perm ((forest.tokens root).map forest.span) := by
  classical
  have once : (forest.tokens root).Nodup := by
    refine (tokens_inOrder linked laid root).imp_of_mem ?_
    rintro x y member _ apart rfl
    have := filled x ((mem_tokens linked).mp member).2
    omega
  have same : ((List.range forest.size).filter (forest.IsToken ·)).Perm (forest.tokens root) := by
    refine (List.perm_ext_iff_of_nodup (List.nodup_range.filter _) once).mpr fun id => ?_
    rw [mem_tokens linked, List.mem_filter, List.mem_range, decide_eq_true_eq]
    constructor
    · exact fun both => ⟨reached id both.2, both.2⟩
    · rintro ⟨_, item, found, isToken⟩
      exact ⟨get_lt_size found, item, found, isToken⟩
  have spans : ∀ id, (forest.get? id).bind Item.tokenSpan? =
      if forest.IsToken id then some (forest.span id) else none := by
    intro id
    cases found : forest.get? id with
    | none => rw [if_neg (by simp [IsToken, found])]; rfl
    | some item =>
        by_cases isToken : item.isToken
        · obtain ⟨starts, stops⟩ := span_of_token linked found isToken
          rw [if_pos ⟨item, found, isToken⟩, span, starts, stops]
          simp [Item.tokenSpan?, isToken]
        · have other : ¬ forest.IsToken id := by simp [IsToken, found, isToken]
          rw [if_neg other]
          simp [Item.tokenSpan?, isToken]
  have every : forest.tokenSpans =
      ((List.range forest.size).filter (forest.IsToken ·)).map forest.span := by
    rw [tokenSpans_eq, funext spans, ← List.filterMap_eq_map, List.filterMap_filter]
    simp
  exact every ▸ same.map forest.span

end ExprLang.Forest
