import Mathlib.Data.Option.Basic
import Eligibility.Tree.Wire
import Eligibility.Proofs.JsonTexts

/-!
# Criteria trees are read back

A criteria tree that is written as JSON is read back unchanged, from the compact text as well as
from the indented one (`Tree.parse?_written`). The JSON of a tree is made of texts, so both layouts
of it are read as JSON; that the JSON gives the tree is shown part by part, from the names up to the
root.
-/

namespace Eligibility

/-! ## Lists -/

/-- Reading a list of written values gives the values, if reading one does. -/
theorem mapM_map_eq_some {α β : Type} {write : α → β} {read : β → Option α}
    (h : ∀ x, read (write x) = some x) (xs : List α) : (xs.map write).mapM read = some xs := by
  induction xs with
  | nil => rfl
  | cons x xs ih => simp [h, ih]

namespace Json

@[simp] theorem text?_ofText (text : String) : (ofText text).text? = some text := rfl

@[simp] theorem name?_ofText (text : String) : (ofText text).name? = some text := rfl

theorem texts?_map_ofText (texts : List String) :
    (array (texts.map ofText)).texts? = some texts :=
  mapM_map_eq_some text?_ofText texts

/-! ## Values made of texts -/

theorem isTextual_ofText (text : String) : (ofText text).IsTextual := by
  simp [ofText, IsTextual]

theorem allTextual_iff {items : List Json} : AllTextual items ↔ ∀ item ∈ items, item.IsTextual := by
  induction items with
  | nil => simp [AllTextual]
  | cons item items ih => simp [AllTextual, ih]

theorem isTextual_array {α : Type} {write : α → Json} (h : ∀ x, (write x).IsTextual)
    (xs : List α) : (array (xs.map write)).IsTextual := by
  rw [IsTextual, allTextual_iff]
  intro item hitem
  obtain ⟨x, -, rfl⟩ := List.mem_map.1 hitem
  exact h x

theorem isTextual_ofFields {fields : List (String × Json)} (h : ∀ f ∈ fields, f.2.IsTextual) :
    (ofFields fields).IsTextual := by
  rw [ofFields, IsTextual]
  induction fields with
  | nil => simp [MembersTextual]
  | cons f fields ih =>
    refine ⟨by simp, h f List.mem_cons_self, ih fun g hg => h g (List.mem_cons_of_mem f hg)⟩

end Json

/-! ## Names -/

@[simp] theorem Connective.ofJson?_wireName (op : Connective) :
    ofJson? (Json.ofText op.wireName) = some op := by
  cases op <;> decide

@[simp] theorem Predicate.ofJson?_wireName (p : Predicate) :
    ofJson? (Json.ofText p.wireName) = some p := by
  cases p <;> decide

@[simp] theorem KeyKind.ofJson?_wireName (kind : KeyKind) :
    ofJson? (Json.ofText kind.wireName) = some kind := by
  cases kind <;> decide

/-! ## Parts of a tree -/

@[simp] theorem sourceIdOfJson?_ofText (id : String) :
    sourceIdOfJson? (some (Json.ofText id)) = some (some id) := rfl

theorem Key.ofJson?_toJson (k : Key) : ofJson? k.toJson = some k := by
  obtain ⟨kind, property, sourceId⟩ := k
  cases sourceId with
  | none => simp [ofJson?, toJson, Json.fields?, Json.ofFields, Json.member?, sourceIdOfJson?]
  | some id => simp [ofJson?, toJson, Json.fields?, Json.ofFields, Json.member?]

theorem Json.arePlain_map_ofText (texts : List String) :
    arePlain (texts.map ofText) = true := by
  induction texts with
  | nil => rfl
  | cons x texts ih => simpa [arePlain, isPlain, ofText] using ih

theorem Json.depthItems_map_ofText (texts : List String) :
    depthItems (texts.map ofText) = 0 := by
  induction texts with
  | nil => rfl
  | cons x texts ih => simpa [depthItems, depth, ofText] using ih

/-- Texts are plain data, and so is an array of texts, which is nested once. -/
theorem canSetAside_toMember (value : Literal) :
    canSetAside (some value.toMember.1, value.toMember.2) = true := by
  cases value with
  | single x => rfl
  | list xs =>
    simp [canSetAside, Literal.toMember, Json.isPlain, Json.arePlain_map_ofText, Json.depth,
      Json.depthItems_map_ofText, maxAsideDepth]

theorem Literal.ofMember?_toMember (value : Literal) :
    ofMember? (some value.toMember.1, value.toMember.2) = some value := by
  cases value with
  | single x => rfl
  | list xs => simp [ofMember?, toMember, Json.texts?_map_ofText]

/-- The member that gives the value is neither the operation nor the key. -/
theorem Literal.toMember_cases (value : Literal) :
    value.toMember.1 = "stringValue" ∨ value.toMember.1 = "values" := by
  cases value with
  | single x => exact .inl rfl
  | list xs => exact .inr rfl

theorem Leaf.ofJson?_toJson (l : Leaf) : ofJson? l.toJson = some l := by
  obtain ⟨operation, key, value⟩ := l
  have hkey := Key.ofJson?_toJson key
  have haside := canSetAside_toMember value
  have hvalue := Literal.ofMember?_toMember value
  rcases value.toMember_cases with hname | hname
  · rw [hname] at haside hvalue
    simp [ofJson?, toJson, Json.ofFields, Json.member?, hname, hkey, haside, hvalue, guard]
  · rw [hname] at haside hvalue
    simp [ofJson?, toJson, Json.ofFields, Json.member?, hname, hkey, haside, hvalue, guard]

theorem Group.ofJson?_toJson (g : Group) : ofJson? g.toJson = some g := by
  have hleaves := mapM_map_eq_some Leaf.ofJson?_toJson g.leaves
  simp [ofJson?, toJson, Json.fields?, Json.ofFields, Json.member?, hleaves]

theorem Tree.ofJson?_toJson (t : Tree) : ofJson? t.toJson = some t := by
  have hgroups := mapM_map_eq_some Group.ofJson?_toJson t.groups
  simp [ofJson?, toJson, Json.fields?, Json.ofFields, Json.member?, hgroups]

/-! ## Texts of a tree -/

theorem Literal.isTextual_toMember (value : Literal) : value.toMember.2.IsTextual := by
  cases value with
  | single x => exact Json.isTextual_ofText x
  | list xs => exact Json.isTextual_array Json.isTextual_ofText xs

theorem Key.isTextual_toJson (k : Key) : k.toJson.IsTextual := by
  refine Json.isTextual_ofFields fun f hf => ?_
  obtain ⟨kind, property, sourceId⟩ := k
  cases sourceId with
  | none =>
    simp only [List.append_nil, List.mem_cons, List.not_mem_nil, or_false] at hf
    rcases hf with rfl | rfl <;> exact Json.isTextual_ofText _
  | some id =>
    simp only [List.cons_append, List.nil_append, List.mem_cons, List.not_mem_nil, or_false] at hf
    rcases hf with rfl | rfl | rfl <;> exact Json.isTextual_ofText _

theorem Leaf.isTextual_toJson (l : Leaf) : l.toJson.IsTextual := by
  refine Json.isTextual_ofFields fun f hf => ?_
  simp only [List.mem_cons, List.not_mem_nil, or_false] at hf
  rcases hf with rfl | rfl | rfl
  · exact Json.isTextual_ofText _
  · exact l.key.isTextual_toJson
  · exact l.value.isTextual_toMember

/-- A node with a name and children that are made of texts is made of texts. -/
theorem isTextual_node {α : Type} {write : α → Json} (h : ∀ x, (write x).IsTextual)
    (name : String) (children : List α) :
    (Json.ofFields [("operation", Json.ofText name),
      ("children", .array (children.map write))]).IsTextual := by
  refine Json.isTextual_ofFields fun f hf => ?_
  simp only [List.mem_cons, List.not_mem_nil, or_false] at hf
  rcases hf with rfl | rfl
  · exact Json.isTextual_ofText name
  · exact Json.isTextual_array h children

theorem Group.isTextual_toJson (g : Group) : g.toJson.IsTextual :=
  isTextual_node Leaf.isTextual_toJson g.operation.wireName g.leaves

theorem Tree.isTextual_toJson (t : Tree) : t.toJson.IsTextual :=
  isTextual_node Group.isTextual_toJson t.operation.wireName t.groups

/-- A tree that is written as JSON is read back unchanged, from either layout. -/
theorem Tree.parse?_written (t : Tree) : parse? t.compact = some t ∧ parse? t.pretty = some t := by
  have hcompact : Json.parse t.compact = some t.toJson := Json.parse_compact t.isTextual_toJson
  have hpretty : Json.parse t.pretty = some t.toJson := Json.parse_pretty t.isTextual_toJson
  simp [parse?, hcompact, hpretty, ofJson?_toJson]

end Eligibility
