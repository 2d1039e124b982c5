import Mathlib
import Eligibility.Proofs.JsonLayouts
import Eligibility.Proofs.Runs
import Eligibility.Proofs.WireFormat

/-!
# Encodings of criteria trees

A criteria tree may be encoded in many ways. The members of an object may stand in any order and
among unknown ones, a missing id of a source may be null, and behind the member that gives a leaf
its value there may be others of its kind. `Tree.EncodedAs` states these ways, and every text of every
encoding is read as the tree (`Tree.parse?_of_encodedAs`).
-/

namespace Eligibility

/-! ## Records -/

namespace Json

/-- An object with the given fields in any order, among others whose names are not known. -/
inductive HasFields (known : List String) (fields : List (String × Json)) : Json → Prop where
  /-- The members are the fields and the others. -/
  | intro {members others : List (String × Json)} (hmembers : members.Perm (fields ++ others))
      (hothers : ∀ m ∈ others, m.1 ∉ known) : HasFields known fields (ofFields members)

/-- Fields as the members of an object. -/
def named (fields : List (String × Json)) : List (Option String × Json) :=
  fields.map fun (name, value) => (some name, value)

section Records

variable {known : List String} {fields members others : List (String × Json)} {name : String}

theorem ofFields_eq_object (fields : List (String × Json)) :
    ofFields fields = .object (named fields) := rfl

theorem all_isSome_named : ((named members).all fun m => m.1.isSome) = true := by simp [named]

theorem hasFields_ofFields (known : List String) (fields : List (String × Json)) :
    (ofFields fields).HasFields known fields := by
  have hmembers : fields.Perm (fields ++ []) := by simp
  exact .intro hmembers (by simp)

/-- Where a member is found that is not repeated, the order of the members and members of other
names do not matter. -/
theorem member?_perm (hmembers : members.Perm (fields ++ others))
    (hothers : ∀ m ∈ others, m.1 ≠ name) (hnodup : (fields.map Prod.fst).Nodup) :
    member? (named members) name = member? (named fields) name := by
  have hperm : (members.filter fun m => m.1 == name).Perm (fields.filter fun m => m.1 == name) := by
    have hnone : (others.filter fun m => m.1 == name) = [] := by simpa using hothers
    simpa [hnone] using hmembers.filter fun m => m.1 == name
  have hcount : (fields.filter fun m => m.1 == name).length ≤ 1 := by
    have hcount := List.nodup_iff_count.1 hnodup name
    rw [List.count, List.countP_map, List.countP_eq_length_filter] at hcount
    exact hcount
  have heq : (members.filter fun m => m.1 == name) = fields.filter fun m => m.1 == name := by
    cases hfields : fields.filter fun m => m.1 == name with
    | nil =>
      rw [hfields] at hperm
      exact hperm.eq_nil
    | cons m rest =>
      rw [hfields] at hperm hcount
      obtain rfl : rest = [] := by simpa using hcount
      exact List.perm_singleton.1 hperm
  have hnamed (members : List (String × Json)) :
      ((named members).filter fun m => m.1 == some name) =
        named (members.filter fun m => m.1 == name) := by
    rw [named, List.filter_map]
    rfl
  rw [member?, member?, hnamed, hnamed, heq]

/-- The known fields of an object are those that it is an object with. -/
theorem HasFields.fields?_eq {j : Json} (h : j.HasFields known fields)
    (hnodup : (fields.map Prod.fst).Nodup) : j.fields? known = (ofFields fields).fields? known := by
  obtain ⟨hmembers, hothers⟩ := h
  rename_i members others
  have hmember : known.mapM (member? (named members)) = known.mapM (member? (named fields)) := by
    refine mapM_congr fun name hname => member?_perm hmembers ?_ hnodup
    rintro m hm rfl
    exact hothers m hm hname
  simp only [fields?, ofFields_eq_object, all_isSome_named, if_true, hmember]

end Records

/-- An object with a connective and some children, each of them encoded in the given way. -/
inductive EncodesNode {α : Type} (encodes : α → Json → Prop) (op : Connective) (children : List α) :
    Json → Prop where
  /-- The children keep their order. -/
  | intro {items : List Json} {j : Json} (hitems : List.Forall₂ encodes children items)
      (hfields : j.HasFields ["operation", "children"]
        [("operation", ofText op.wireName), ("children", .array items)]) :
      EncodesNode encodes op children j

section Nodes

variable {α : Type} {encodes : α → Json → Prop} {op : Connective} {children : List α}

/-- The children of a node are read, if each of them is. -/
theorem EncodesNode.fields?_eq {j : Json} {read : Json → Option α}
    (h : j.EncodesNode encodes op children) (hread : ∀ {x j}, encodes x j → read j = some x) :
    ∃ items,
      j.fields? ["operation", "children"] =
        some [some (ofText op.wireName), some (.array items)] ∧
      items.mapM read = some children := by
  obtain ⟨hitems, hfields⟩ := h
  rename_i items
  refine ⟨items, ?_, ?_⟩
  · rw [hfields.fields?_eq (by simp)]
    simp [fields?, ofFields, member?]
  · clear hfields
    induction hitems with
    | nil => rfl
    | cons hx _ ih => simp [hread hx, ih]

end Nodes

end Json

/-! ## Encodings -/

/-- The encodings of a key. -/
inductive Key.EncodedAs (k : Key) : Json → Prop where
  /-- With the id of the source, if there is one. -/
  | given {j : Json} (h : j.HasFields ["type", "property", "sourceId"]
      ([("type", Json.ofText k.kind.wireName), ("property", Json.ofText k.property)] ++
        match k.sourceId with
        | some id => [("sourceId", Json.ofText id)]
        | none => [])) : k.EncodedAs j
  /-- With null where there is no source. -/
  | null {j : Json} (hsource : k.sourceId = none) (h : j.HasFields ["type", "property", "sourceId"]
      [("type", Json.ofText k.kind.wireName), ("property", Json.ofText k.property),
        ("sourceId", .null)]) : k.EncodedAs j

/-- The encodings of a leaf. Nothing that can give a value stands before the value; what stands
behind it may be of that kind. -/
inductive Leaf.EncodedAs (l : Leaf) : Json → Prop where
  /-- The operation, the key and other members stand around the value. -/
  | intro {key : Json} {before after others : List (String × Json)} (hkey : l.key.EncodedAs key)
      (hmembers : (before ++ after).Perm
        ([("operation", Json.ofText l.operation.wireName), ("key", key)] ++ others))
      (hothers : ∀ m ∈ others, m.1 ∉ ["operation", "key"])
      (haside : ∀ m ∈ others, canSetAside (some m.1, m.2) = true)
      (hbefore : ∀ m ∈ before, m.1 ∉ ["stringValue", "values"]) :
      l.EncodedAs (Json.ofFields (before ++ l.value.toMember :: after))

/-- The encodings of a group. -/
abbrev Group.EncodedAs (g : Group) (j : Json) : Prop :=
  j.EncodesNode Leaf.EncodedAs g.operation g.leaves

/-- The encodings of a tree. -/
abbrev Tree.EncodedAs (t : Tree) (j : Json) : Prop :=
  j.EncodesNode Group.EncodedAs t.operation t.groups

/-! ## Encodings are read -/

theorem Key.ofJson?_of_encodedAs {k : Key} {j : Json} (h : k.EncodedAs j) : ofJson? j = some k := by
  cases h with
  | given h =>
    have hfields : j.fields? ["type", "property", "sourceId"] =
        k.toJson.fields? ["type", "property", "sourceId"] := by
      refine h.fields?_eq ?_
      cases k.sourceId <;> simp
    have hread := Key.ofJson?_toJson k
    rwa [ofJson?, ← hfields] at hread
  | null hsource h =>
    obtain ⟨kind, property, sourceId⟩ := k
    subst hsource
    rw [ofJson?, h.fields?_eq (by simp)]
    simp [Json.fields?, Json.ofFields, Json.member?, sourceIdOfJson?]

/-- Of the members that are kept, the first that qualifies is found. -/
theorem find?_filter_append {α : Type} {p q : α → Bool} {before after : List α} {x : α}
    (hbefore : ∀ y ∈ before, q y = false) (hkept : p x = true) (hx : q x = true) :
    ((before ++ x :: after).filter p).find? q = some x := by
  have hnone : (before.filter p).find? q = none := by
    rw [List.find?_eq_none]
    intro y hy
    simp [hbefore y (List.mem_filter.1 hy).1]
  rw [List.filter_append, List.find?_append, hnone, List.filter_cons_of_pos hkept,
    List.find?_cons_of_pos hx]
  rfl

section Leaves

variable {l : Leaf} {key : Json} {before after others : List (String × Json)}

/-- The operation and the key are found as in a record, to which the value does not belong. -/
theorem Leaf.member?_eq (hmembers : (before ++ after).Perm
      ([("operation", Json.ofText l.operation.wireName), ("key", key)] ++ others))
    (hothers : ∀ m ∈ others, m.1 ∉ ["operation", "key"]) (name : String)
    (hname : name ∈ ["operation", "key"]) :
    Json.member? (Json.named (before ++ l.value.toMember :: after)) name =
      Json.member? (Json.named [("operation", Json.ofText l.operation.wireName), ("key", key)])
        name := by
  have hperm : (before ++ l.value.toMember :: after).Perm
      ([("operation", Json.ofText l.operation.wireName), ("key", key)] ++
        l.value.toMember :: others) :=
    List.perm_middle.trans ((hmembers.cons _).trans List.perm_middle.symm)
  refine Json.member?_perm hperm ?_ (by simp)
  rintro m hm rfl
  rcases List.mem_cons.1 hm with rfl | hm
  · rcases l.value.toMember_cases with hvalue | hvalue <;> simp [hvalue] at hname
  · exact hothers m hm hname

/-- What is left besides the operation and the key can be set aside. -/
theorem Leaf.all_canSetAside (hmembers : (before ++ after).Perm
      ([("operation", Json.ofText l.operation.wireName), ("key", key)] ++ others))
    (haside : ∀ m ∈ others, canSetAside (some m.1, m.2) = true) :
    (((Json.named (before ++ l.value.toMember :: after)).filter fun m =>
      m.1 != some "operation" && m.1 != some "key").all canSetAside) = true := by
  rw [List.all_eq_true]
  intro m hm
  obtain ⟨hm, hname⟩ := List.mem_filter.1 hm
  obtain ⟨⟨name, value⟩, hmem, rfl⟩ := List.mem_map.1 hm
  have hcases : (name, value) = l.value.toMember ∨ (name, value) ∈ before ++ after := by
    simpa [or_left_comm] using hmem
  rcases hcases with heq | hmem
  · have hvalue := canSetAside_toMember l.value
    rwa [← heq] at hvalue
  · rcases List.mem_append.1 (hmembers.mem_iff.1 hmem) with hfield | hother
    · simp only [List.mem_cons, Prod.mk.injEq, List.not_mem_nil, or_false] at hfield
      rcases hfield with ⟨rfl, -⟩ | ⟨rfl, -⟩ <;> simp at hname
    · exact haside _ hother

/-- The value is the first member that can be one. -/
theorem Leaf.find?_value (l : Leaf) (after : List (String × Json))
    (hbefore : ∀ m ∈ before, m.1 ∉ ["stringValue", "values"]) :
    ((Json.named (before ++ l.value.toMember :: after)).filter fun m =>
      m.1 != some "operation" && m.1 != some "key").find? (fun m =>
        m.1 == some "stringValue" || m.1 == some "values") =
      some (some l.value.toMember.1, l.value.toMember.2) := by
  rw [Json.named, List.map_append, List.map_cons]
  refine find?_filter_append ?_ ?_ ?_
  · intro m hm
    obtain ⟨m', hm', rfl⟩ := List.mem_map.1 hm
    simpa using hbefore m' hm'
  · rcases l.value.toMember_cases with hvalue | hvalue <;> simp [hvalue]
  · rcases l.value.toMember_cases with hvalue | hvalue <;> simp [hvalue]

end Leaves

theorem Leaf.ofJson?_of_encodedAs {l : Leaf} {j : Json} (h : l.EncodedAs j) :
    ofJson? j = some l := by
  obtain ⟨hkey, hmembers, hothers, haside, hbefore⟩ := h
  rename_i key before after others
  have hoperation : Json.member? (Json.named (before ++ l.value.toMember :: after)) "operation" =
      some (some (Json.ofText l.operation.wireName)) :=
    Leaf.member?_eq hmembers hothers "operation" (by simp)
  have hkeyMember : Json.member? (Json.named (before ++ l.value.toMember :: after)) "key" =
      some (some key) :=
    Leaf.member?_eq hmembers hothers "key" (by simp)
  have hall := Leaf.all_canSetAside hmembers haside
  have hfirst := l.find?_value after hbefore
  have hvalue := Literal.ofMember?_toMember l.value
  have hread := Key.ofJson?_of_encodedAs hkey
  rw [Json.ofFields_eq_object, ofJson?]
  simp [Json.all_isSome_named, hoperation, hkeyMember, hall, hfirst, hread, hvalue, guard]

/-- Nothing stands in a leaf besides the operation and the key that could not be set aside. -/
theorem Leaf.canSetAside_of_ofJson? {l : Leaf} {members : List (Option String × Json)}
    (h : ofJson? (.object members) = some l) {m : Option String × Json} (hm : m ∈ members)
    (hoperation : m.1 ≠ some "operation") (hkey : m.1 ≠ some "key") : canSetAside m = true := by
  rw [ofJson?] at h
  dsimp only at h
  -- the texts are texts, the operation and the key are there, and then the others are set aside
  obtain ⟨-, -, h⟩ := Option.bind_eq_some_iff.1 h
  obtain ⟨_, -, h⟩ := Option.bind_eq_some_iff.1 h
  obtain ⟨_, -, h⟩ := Option.bind_eq_some_iff.1 h
  obtain ⟨_, -, h⟩ := Option.bind_eq_some_iff.1 h
  obtain ⟨_, -, h⟩ := Option.bind_eq_some_iff.1 h
  obtain ⟨_, haside, -⟩ := Option.bind_eq_some_iff.1 h
  have hall : (members.filter fun m =>
      m.1 != some "operation" && m.1 != some "key").all canSetAside = true := by
    cases hall : (members.filter fun m =>
        m.1 != some "operation" && m.1 != some "key").all canSetAside with
    | true => rfl
    | false =>
      rw [hall] at haside
      cases haside
  exact List.all_eq_true.1 hall m (List.mem_filter.2 ⟨hm, by simp [hoperation, hkey]⟩)

theorem Group.ofJson?_of_encodedAs {g : Group} {j : Json} (h : g.EncodedAs j) :
    ofJson? j = some g := by
  obtain ⟨items, hfields, hleaves⟩ := h.fields?_eq Leaf.ofJson?_of_encodedAs
  simp [ofJson?, hfields, hleaves]

theorem Tree.ofJson?_of_encodedAs {t : Tree} {j : Json} (h : t.EncodedAs j) :
    ofJson? j = some t := by
  obtain ⟨items, hfields, hgroups⟩ := h.fields?_eq Group.ofJson?_of_encodedAs
  simp [ofJson?, hfields, hgroups]

/-! ## What is written is an encoding -/

theorem forall₂_map {α : Type} {encodes : α → Json → Prop} {write : α → Json}
    (h : ∀ x, encodes x (write x)) (xs : List α) : List.Forall₂ encodes xs (xs.map write) := by
  induction xs with
  | nil => exact .nil
  | cons x xs ih => exact .cons (h x) ih

theorem Key.encodedAs_toJson (k : Key) : k.EncodedAs k.toJson :=
  .given (Json.hasFields_ofFields _ _)

theorem Leaf.encodedAs_toJson (l : Leaf) : l.EncodedAs l.toJson := by
  have hmembers : ([("operation", Json.ofText l.operation.wireName), ("key", l.key.toJson)] ++
      []).Perm ([("operation", Json.ofText l.operation.wireName), ("key", l.key.toJson)] ++ []) :=
    .refl _
  exact .intro l.key.encodedAs_toJson hmembers (by simp) (by simp) (by simp)

theorem Group.encodedAs_toJson (g : Group) : g.EncodedAs g.toJson :=
  .intro (forall₂_map Leaf.encodedAs_toJson g.leaves) (Json.hasFields_ofFields _ _)

theorem Tree.encodedAs_toJson (t : Tree) : t.EncodedAs t.toJson :=
  .intro (forall₂_map Group.encodedAs_toJson t.groups) (Json.hasFields_ofFields _ _)

/-! ## Texts of encodings -/

/-- A tree is read from every text of every encoding of it: whatever the order of the members is,
whatever blanks stand between the tokens, and whatever unknown members there are. -/
theorem Tree.parse?_of_encodedAs {t : Tree} {j : Json} {text : String} (ht : t.EncodedAs j)
    (htext : j.Layout text.toList) : parse? text = some t := by
  have hparse : Json.parse text = some j := Json.parse_eq_some_iff.2 htext
  simp [parse?, hparse, Tree.ofJson?_of_encodedAs ht]

/-- The members stand in reverse order and among unknown ones, a missing id is null, and behind the
value of the leaf there is a second one, which is no text. -/
theorem Tree.parse?_of_encodedAs_reversed :
    parse? "\x7b\"note\": null,
      \"children\": [\x7b\"note\": null,
        \"children\": [\x7b\"values\": [\"Ann\", \"Bob\"], \"stringValue\": [],
          \"key\": \x7b\"note\": \"\\ud800\", \"sourceId\": null,
            \"property\": \"attribute.name\", \"type\": \"IDENTITY\"\x7d,
          \"operation\": \"EQUALS\"\x7d],
        \"operation\": \"AND\"\x7d],
      \"operation\": \"OR\"\x7d" =
      some ⟨.or, [
        ⟨.and, [⟨.equals, ⟨.identity, "attribute.name", none⟩, .list ["Ann", "Bob"]⟩]⟩]⟩ := by
  have hreversed {known : List String} {fields : List (String × Json)} (value : Json)
      (h : "note" ∉ known) :
      (Json.ofFields (fields ++ [("note", value)]).reverse).HasFields known fields :=
    .intro (List.reverse_perm _) (by simpa using h)
  have hkey : Key.EncodedAs ⟨.identity, "attribute.name", none⟩ _ :=
    .null rfl (hreversed (.string none) (by decide))
  have haside : canSetAside (some "stringValue", .array []) = true := by
    simp [canSetAside, Json.isPlain, Json.arePlain, Json.depth, Json.depthItems, maxAsideDepth]
  have hleaf :
      Leaf.EncodedAs ⟨.equals, ⟨.identity, "attribute.name", none⟩, .list ["Ann", "Bob"]⟩ _ :=
    @Leaf.EncodedAs.intro _ _ [] _ [("stringValue", .array [])] hkey (List.reverse_perm _) (by simp)
      (by simpa using haside) (by simp)
  have hgroup : Group.EncodedAs ⟨.and, [_]⟩ _ :=
    .intro (.cons hleaf .nil) (hreversed .null (by decide))
  have htree : Tree.EncodedAs ⟨.or, [_]⟩ _ :=
    .intro (.cons hgroup .nil) (hreversed .null (by decide))
  refine Tree.parse?_of_encodedAs htree (Json.parse_eq_some_iff.1 ?_)
  rw [Json.parse, String.toList_ofList]
  cbv

end Eligibility
