import ExprLang.Language.ConfigJson
import ExprLang.Proofs.Json.Texts
import Mathlib.Data.List.Nodup

/-!
Language definitions in JSON. What is written for a definition is read as the definition, and of a
field that is taken out the default is read, whatever the other fields are. Every reader takes back
what its writer gives, and a record that names no field twice gives each field it has.
-/

namespace ExprLang

open Json

namespace Json

/-! Records -/

theorem repeatedName?_eq_none {names : List String} {entries : List (String × Json)}
    (nodup : (entries.map Prod.fst).Nodup) : repeatedName? names entries = none := by
  refine List.find?_eq_none.mpr fun name _ repeated => ?_
  have once : (entries.map Prod.fst).count name ≤ 1 := List.nodup_iff_count_le_one.mp nodup name
  have same : entries.countP (fun entry => entry.1 == name) = (entries.map Prod.fst).count name := by
    rw [List.count, List.countP_map]
    rfl
  have twice : 1 < entries.countP (fun entry => entry.1 == name) := of_decide_eq_true repeated
  omega

theorem readRecord_object {names : List String} {entries : List (String × Json)}
    (nodup : (entries.map Prod.fst).Nodup) :
    readRecord names (.object entries) = .ok fun name => entries.lookup name := by
  rw [readRecord, repeatedName?_eq_none nodup]

theorem lookup_filter (kept : String → Bool) (entries : List (String × Json)) (name : String) :
    (entries.filter fun entry => kept entry.1).lookup name =
      if kept name then entries.lookup name else none := by
  induction entries with
  | nil => simp
  | cons entry rest ih =>
      obtain ⟨other, value⟩ := entry
      rcases eq_or_ne name other with rfl | differ
      · by_cases keep : kept name <;> simp [keep, ih]
      · have apart : (name == other) = false := beq_false_of_ne differ
        by_cases keep : kept other <;> simp [keep, List.lookup_cons, apart, ih]

theorem defaulted_kept {α : Type} {fields : Fields} {name : String} {read : Json → Result α}
    {value dflt : α} {json : Json} {kept : Bool} (field : fields name = if kept then some json else none)
    (back : read json = .ok value) :
    defaulted fields name read dflt = .ok (if kept then value else dflt) := by
  cases kept <;> simp [defaulted, field, back]

/-! Parts -/

theorem readUInt32_nat (value : UInt32) : readUInt32 (.nat value.toNat) = .ok value := by
  have small : value.toNat < UInt32.size := value.toNat_lt
  simp [readUInt32, Json.nat, small]

theorem readInt32_int (value : Int32) : readInt32 (.int value.toInt) = .ok value := by
  have low := value.minValue_le_toInt
  have high := value.toInt_le
  simp only [readInt32]
  rw [if_pos ⟨low, high⟩, Int32.ofInt_toInt]

theorem readChar_charJson (c : Char) : readChar (charJson c) = .ok c := by
  simp [readChar, charJson]

theorem readItemsWith_map {α : Type} {read : Json → Result α} (write : α → Json)
    (back : ∀ value, read (write value) = .ok value) (values : List α) :
    readItemsWith read (values.map write) = .ok values := by
  induction values with
  | nil => rfl
  | cons value rest ih => simp [readItemsWith, back, ih, Except.map]

theorem readList_map {α : Type} {read : Json → Result α} (write : α → Json)
    (back : ∀ value, read (write value) = .ok value) (values : List α) :
    readList read (.array (values.map write)) = .ok values :=
  readItemsWith_map write back values

theorem readList_strings (texts : List String) : readList readText (.strings texts) = .ok texts :=
  readList_map Json.string (fun _ => rfl) texts

/-- A value that is present is not written as null. -/
theorem readOption_ofOption {α : Type} {read : Json → Result α} (write : α → Json)
    (back : ∀ value, read (write value) = .ok value) (solid : ∀ value, write value ≠ .null)
    (value : Option α) : readOption read (.ofOption write value) = .ok value := by
  cases value with
  | none => rfl
  | some value =>
      rw [Json.ofOption, readOption, back]
      · rfl
      · exact solid value

end Json

/-! Entries of the tables -/

theorem readKeyword_toJson (keyword : Keyword) : readKeyword keyword.toJson = .ok keyword := by
  rw [readKeyword, Keyword.toJson, readRecord_object (by simp)]
  simp [required, readUInt32_nat, readText, List.lookup_cons, bind, Except.bind, pure, Except.pure]

theorem readOperator_toJson (operator : OperatorEntry) :
    readOperator operator.toJson = .ok operator := by
  obtain ⟨id, nameParts, kind, priority⟩ := operator
  have known : readChoice operatorKinds (.string kind.name) = .ok kind := by cases kind <;> rfl
  cases id with
  | none =>
      rw [readOperator, OperatorEntry.toJson, readRecord_object (by simp)]
      simp [required, defaulted, readList_strings, known, readInt32_int, List.lookup_cons, bind,
        Except.bind, pure, Except.pure]
  | some id =>
      have number : readOption readUInt32 (.nat id.toNat) = .ok (some id) :=
        readOption_ofOption (fun id : UInt32 => .nat id.toNat) readUInt32_nat (fun _ => nofun) (some id)
      rw [readOperator, OperatorEntry.toJson, readRecord_object (by simp)]
      simp [required, defaulted, readList_strings, known, number, readInt32_int, List.lookup_cons,
        bind, Except.bind, pure, Except.pure]

theorem readNumericType_toJson (type : NumericType) : readNumericType type.toJson = .ok type := by
  have known : readChoice numericKinds (.string type.kind.name) = .ok type.kind := by
    cases type.kind <;> rfl
  rw [readNumericType, NumericType.toJson, readRecord_object (by simp)]
  simp [required, readList_strings, known, readUInt32_nat, readText, List.lookup_cons, bind,
    Except.bind, pure, Except.pure]

theorem readMarkerPair_toJson (pair : MarkerPair) : readMarkerPair pair.toJson = .ok pair := by
  rw [readMarkerPair, MarkerPair.toJson, readRecord_object (by simp)]
  simp [required, readText, List.lookup_cons, bind, Except.bind, pure, Except.pure]

/-! Whatever is written for a definition is plain -/

namespace Json

theorem plain_strings (texts : List String) : (strings texts).Plain := by
  refine .array fun item member => ?_
  obtain ⟨text, _, rfl⟩ := List.mem_map.mp member
  exact .string text

theorem plain_map {α : Type} {write : α → Json} (plain : ∀ value, (write value).Plain)
    (values : List α) : (array (values.map write)).Plain := by
  refine .array fun item member => ?_
  obtain ⟨value, _, rfl⟩ := List.mem_map.mp member
  exact plain value

theorem plain_ofOption {α : Type} {write : α → Json} (plain : ∀ value, (write value).Plain)
    (value : Option α) : (ofOption write value).Plain := by
  cases value with
  | none => exact .null
  | some value => exact plain value

end Json

theorem Keyword.plain_toJson (keyword : Keyword) : keyword.toJson.Plain := by
  refine .object ?_
  simp only [List.forall_mem_cons]
  exact ⟨.int _, .string _, nofun⟩

theorem OperatorEntry.plain_toJson (operator : OperatorEntry) : operator.toJson.Plain := by
  refine .object fun entry member => ?_
  rcases List.mem_append.mp member with optional | always
  · obtain ⟨id, _, rfl⟩ := Option.map_eq_some_iff.mp (Option.mem_toList.mp optional)
    exact .int _
  · simp only [List.mem_cons, List.not_mem_nil, or_false] at always
    rcases always with rfl | rfl | rfl
    · exact plain_strings _
    · exact .string _
    · exact .int _

theorem NumericType.plain_toJson (type : NumericType) : type.toJson.Plain := by
  refine .object ?_
  simp only [List.forall_mem_cons]
  exact ⟨.int _, .string _, .string _, plain_strings _, nofun⟩

theorem MarkerPair.plain_toJson (pair : MarkerPair) : pair.toJson.Plain := by
  refine .object ?_
  simp only [List.forall_mem_cons]
  exact ⟨.string _, .string _, nofun⟩

namespace Config

theorem plain_toEntries (config : Config) : ∀ entry ∈ config.toEntries, entry.2.Plain := by
  simp only [toEntries, List.forall_mem_cons]
  exact ⟨plain_map Keyword.plain_toJson _, plain_map OperatorEntry.plain_toJson _,
    plain_ofOption MarkerPair.plain_toJson _, plain_ofOption (fun _ => .string _) _,
    plain_ofOption .string _, plain_ofOption MarkerPair.plain_toJson _, plain_map (fun _ => .string _) _,
    .string _, .bool _, .bool _, .bool _, plain_map NumericType.plain_toJson _, nofun⟩

/-! Whole definitions -/

/-- The definition with the default in every field that is not kept. -/
def keeping (config : Config) (kept : String → Bool) : Config :=
  let dflt : Config := {}
  { keywords := if kept "keywords" then config.keywords else dflt.keywords
    operators := if kept "operators" then config.operators else dflt.operators
    codeBlock := if kept "code_block" then config.codeBlock else dflt.codeBlock
    separator := if kept "separator" then config.separator else dflt.separator
    lineComment := if kept "line_comment" then config.lineComment else dflt.lineComment
    multilineComment :=
      if kept "multiline_comment" then config.multilineComment else dflt.multilineComment
    quotes := if kept "quote_chars" then config.quotes else dflt.quotes
    textEscape := if kept "text_escape" then config.textEscape else dflt.textEscape
    caseSensitive := if kept "case_sensitive" then config.caseSensitive else dflt.caseSensitive
    supportsPrefixes :=
      if kept "supports_prefixes" then config.supportsPrefixes else dflt.supportsPrefixes
    supportsKeywords :=
      if kept "supports_keywords" then config.supportsKeywords else dflt.supportsKeywords
    numericTypes := if kept "numeric_types" then config.numericTypes else dflt.numericTypes }

theorem names_toEntries (config : Config) : config.toEntries.map Prod.fst = fieldNames := rfl

/-- What is left of a definition's JSON when only some of its fields are kept. -/
def partJson (config : Config) (kept : String → Bool) : Json :=
  .object (config.toEntries.filter fun entry => kept entry.1)

theorem nodup_part (config : Config) (kept : String → Bool) :
    ((config.toEntries.filter fun entry => kept entry.1).map Prod.fst).Nodup := by
  have nodup : (config.toEntries.map Prod.fst).Nodup := by
    rw [names_toEntries]
    decide
  exact nodup.sublist (List.filter_sublist.map Prod.fst)

/-- Every field that is left is read, and every other one has its default. -/
theorem ofJson_partJson (config : Config) (kept : String → Bool) :
    ofJson (config.partJson kept) = .ok (config.keeping kept) := by
  have escape : readChoice textEscapes (.string config.textEscape.name) = .ok config.textEscape := by
    cases config.textEscape <;> rfl
  have marker (pair : Option MarkerPair) :
      readOption readMarkerPair (.ofOption MarkerPair.toJson pair) = .ok pair :=
    readOption_ofOption _ readMarkerPair_toJson (fun _ => nofun) pair
  have char (c : Option Char) : readOption readChar (.ofOption charJson c) = .ok c :=
    readOption_ofOption _ readChar_charJson (fun _ => nofun) c
  have text (value : Option String) : readOption readText (.ofOption .string value) = .ok value :=
    readOption_ofOption Json.string (fun _ => rfl) (fun _ => nofun) value
  have field {α : Type} (name : String) {json : Json} (read : Json → Result α) {value dflt : α}
      (known : config.toEntries.lookup name = some json) (back : read json = .ok value) :
      defaulted (fun name => (config.toEntries.filter fun entry => kept entry.1).lookup name) name read
        dflt = .ok (if kept name then value else dflt) :=
    defaulted_kept (by rw [lookup_filter, known]) back
  rw [ofJson, partJson, readRecord_object (config.nodup_part kept)]
  simp only [bind, Except.bind,
    field "keywords" _ rfl (readList_map _ readKeyword_toJson config.keywords),
    field "operators" _ rfl (readList_map _ readOperator_toJson config.operators),
    field "code_block" _ rfl (marker config.codeBlock),
    field "separator" _ rfl (char config.separator),
    field "line_comment" _ rfl (text config.lineComment),
    field "multiline_comment" _ rfl (marker config.multilineComment),
    field "quote_chars" _ rfl (readList_map _ readChar_charJson config.quotes),
    field "text_escape" _ rfl escape,
    field "case_sensitive" readBool rfl rfl,
    field "supports_prefixes" readBool rfl rfl,
    field "supports_keywords" readBool rfl rfl,
    field "numeric_types" _ rfl (readList_map _ readNumericType_toJson config.numericTypes)]
  rfl

theorem partJson_all (config : Config) : config.partJson (fun _ => true) = config.toJson := by
  rw [partJson, List.filter_true, toJson]

theorem parse_partJson (config : Config) (kept : String → Bool) (pretty : Bool) (depth : Nat) :
    parse ((config.partJson kept).render pretty depth) = .ok (config.keeping kept) := by
  have plain : (config.partJson kept).Plain :=
    .object fun entry member => config.plain_toEntries entry (List.mem_of_mem_filter member)
  rw [parse, parse_render plain]
  exact ofJson_partJson config kept

/-- The text written for a definition, compact or not, is read as the definition; and once some of its
fields are taken out, as the definition with the default in exactly these fields. -/
theorem survives_json (config : Config) (pretty : Bool) :
    parse (config.toJson.render pretty 0) = .ok config ∧
      ∀ kept : String → Bool,
        parse ((config.partJson kept).render pretty 0) = .ok (config.keeping kept) := by
  refine ⟨?_, fun kept => config.parse_partJson kept pretty 0⟩
  rw [← config.partJson_all]
  exact config.parse_partJson _ pretty 0

end Config

end ExprLang
