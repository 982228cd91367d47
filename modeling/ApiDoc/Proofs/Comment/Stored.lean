import ApiDoc.Comment.Stored

/-!
# Stored comments are read back

Writing leaves fields out, puts null in their place or flattens them into the map around them, and
reading undoes each of these. For stored forms this holds without exception, so data that could be
read at all are stable after one round; comments, whose fields are texts, are the stored forms that
the second step of reading accepts.

* `Data.get?_presentFields`: a field that is left out is missing, any other is found.
* `TypeExpr.StoredNode.ofData_fields`: a tree is read back, also with further fields beside it.
* `StoredFile.ofData_toData` and its companions: every stored form is read back.
* `FileComments.toFileComments_stored` and its companions: a stored form gives back what it was
  made of.
* `stored_comments_round_trip`: both halves together, for all five sorts of records.
-/

namespace ApiDoc

open Data (ReadError)

/-! ## Fields of records -/

namespace Data

variable {key : String} {fields : List (String × Data)}

theorem get?_record_cons (key k : String) (v : Data) (fields : List (String × Data)) :
    (record ((k, v) :: fields)).get? key =
      if k = key then some v else (record fields).get? key :=
  rfl

theorem get?_record_append (key : String) (fields more : List (String × Data)) :
    (record (fields ++ more)).get? key =
      ((record fields).get? key).or ((record more).get? key) := by
  induction fields with
  | nil => rfl
  | cons f fields ih =>
    obtain ⟨k, v⟩ := f
    rw [List.cons_append, get?_record_cons, get?_record_cons, ih]
    split <;> rfl

theorem get?_record_eq_none (h : key ∉ fields.map Prod.fst) :
    (record fields).get? key = none := by
  induction fields with
  | nil => rfl
  | cons f fields ih =>
    obtain ⟨k, v⟩ := f
    obtain ⟨hk, hfields⟩ := not_or.1 (mt List.mem_cons.2 h)
    rw [get?_record_cons, if_neg (Ne.symm hk), ih hfields]

/-- A field that is null is left out, and then the key is missing. -/
theorem get?_presentFields (h : (fields.map Prod.fst).Nodup) :
    (record (TypeExpr.presentFields fields)).get? key =
      ((record fields).get? key).filter (!·.isNull) := by
  induction fields with
  | nil => rfl
  | cons f fields ih =>
    obtain ⟨k, v⟩ := f
    obtain ⟨hk, hfields⟩ := List.nodup_cons.1 h
    have hrest := ih hfields
    unfold TypeExpr.presentFields at hrest ⊢
    rw [get?_record_cons]
    cases hv : v.isNull with
    | true =>
      rw [List.filter_cons_of_neg (by simp [hv]), hrest]
      split
      · next he =>
        rw [← he, get?_record_eq_none hk, Option.filter_some, hv]
        rfl
      · rfl
    | false =>
      rw [List.filter_cons_of_pos (by simp [hv]), get?_record_cons, hrest]
      split
      · rw [Option.filter_some, hv]
        rfl
      · rfl

theorem getD_filter_isNull (v : Data) :
    ((some v).filter (!·.isNull)).getD .null = v := by
  cases v <;> rfl

theorem asText?_ofText? (key : String) (s : Option String) : (ofText? s).asText? key = .ok s := by
  cases s <;> rfl

end Data

/-! ## Trees -/

namespace TypeExpr

/-- The keys under which a node has its fields. -/
def nodeKeys : List String :=
  ["kind", "name", "value", "children", "returns"]

namespace StoredNode

theorem keys_fields (n : StoredNode) : n.fields.map Prod.fst ⊆ nodeKeys := by
  obtain ⟨kind, name, value, children, returns⟩ := n
  intro key hkey
  rw [fields, List.map_cons, List.mem_cons] at hkey
  rcases hkey with rfl | hkey
  · exact List.mem_cons_self
  · obtain ⟨f, hf, rfl⟩ := List.mem_map.1 hkey
    exact List.mem_cons_of_mem _ (List.mem_map_of_mem (List.mem_filter.1 hf).1)

section

variable (n : StoredNode) {more : List (String × Data)}
  (hmore : ∀ key ∈ nodeKeys, (Data.record more).get? key = none)
include hmore

theorem get?_fields {key : String} (hkey : key ∈ nodeKeys) :
    (Data.record (n.fields ++ more)).get? key =
      if "kind" = key then some (.text n.kind.label)
      else ((Data.record [("name", n.name), ("value", n.value),
        ("children", if n.children.isEmpty then .null else .list (childData n.children)),
        ("returns", returnsData n.returns)]).get? key).filter (!·.isNull) := by
  obtain ⟨kind, name, value, children, returns⟩ := n
  rw [Data.get?_record_append, hmore key hkey, Option.or_none, fields, Data.get?_record_cons]
  split
  · rfl
  · have hkeys : ["name", "value", "children", "returns"].Nodup := by decide
    rw [Data.get?_presentFields]
    exact hkeys

theorem kindField_fields : kindField (Data.record (n.fields ++ more)) = .ok n.kind := by
  unfold kindField
  rw [get?_fields n hmore (by decide), if_pos rfl]
  simp only
  rw [Kind.ofLabel?_label]

theorem fieldOrNull_name : (Data.record (n.fields ++ more)).fieldOrNull "name" = n.name := by
  unfold Data.fieldOrNull
  rw [get?_fields n hmore (by decide), if_neg (by decide)]
  exact Data.getD_filter_isNull n.name

theorem fieldOrNull_value : (Data.record (n.fields ++ more)).fieldOrNull "value" = n.value := by
  unfold Data.fieldOrNull
  rw [get?_fields n hmore (by decide), if_neg (by decide)]
  exact Data.getD_filter_isNull n.value

theorem recordsField_children : (Data.record (n.fields ++ more)).recordsField "children" =
    .ok (childData n.children) := by
  unfold Data.recordsField
  rw [get?_fields n hmore (by decide), if_neg (by decide)]
  cases n.children with
  | nil => rfl
  | cons c cs => rfl

theorem recordField?_returns : (Data.record (n.fields ++ more)).recordField? "returns" =
    .ok (n.returns.map fun r => Data.record r.fields) := by
  unfold Data.recordField?
  rw [get?_fields n hmore (by decide), if_neg (by decide)]
  cases n.returns with
  | none => rfl
  | some r =>
    obtain ⟨kind, name, value, children, returns⟩ := r
    rfl

end

theorem ofData_eq_ok {d : Data} {items : List Data} {children : List StoredNode} {kind : Kind}
    {r? : Option Data} {returns : Option StoredNode} (hkind : kindField d = .ok kind)
    (hitems : d.recordsField "children" = .ok items) (hchildren : ofItems items = .ok children)
    (hr : d.recordField? "returns" = .ok r?)
    (hreturns : match r? with
      | none => returns = none
      | some r => ∃ node, ofData r = .ok node ∧ returns = some node) :
    ofData d = .ok { kind, name := d.fieldOrNull "name", value := d.fieldOrNull "value", children,
                     returns } := by
  rw [ofData, hkind]
  simp only
  split
  · next e he =>
    rw [hitems] at he
    cases he
  · next items' hi =>
    obtain rfl := Except.ok.inj (hitems.symm.trans hi)
    rw [hchildren]
    simp only
    split
    · next e he =>
      rw [hr] at he
      cases he
    · next hnone =>
      obtain rfl := Except.ok.inj (hr.symm.trans hnone)
      rw [hreturns]
    · next r hsome =>
      obtain rfl := Except.ok.inj (hr.symm.trans hsome)
      obtain ⟨node, hnode, rfl⟩ := hreturns
      rw [hnode]

mutual

/-- A tree is read back, whatever else stands beside its fields. -/
theorem ofData_fields (n : StoredNode) (more : List (String × Data))
    (hmore : ∀ key ∈ nodeKeys, (Data.record more).get? key = none) :
    ofData (Data.record (n.fields ++ more)) = .ok n := by
  have hkind := kindField_fields n hmore
  have hname := fieldOrNull_name n hmore
  have hvalue := fieldOrNull_value n hmore
  have hitems := recordsField_children n hmore
  have hreturns := recordField?_returns n hmore
  match n with
  | ⟨kind, name, value, children, none⟩ =>
    have hchildren := ofItems_childData children
    rw [ofData_eq_ok hkind hitems hchildren hreturns rfl, hname, hvalue]
  | ⟨kind, name, value, children, some r⟩ =>
    have hchildren := ofItems_childData children
    have hr := ofData_fields r [] (fun _ _ => rfl)
    rw [List.append_nil] at hr
    rw [ofData_eq_ok hkind hitems hchildren hreturns ⟨r, hr, rfl⟩, hname, hvalue]

theorem ofItems_childData (ns : List StoredNode) : ofItems (childData ns) = .ok ns := by
  match ns with
  | [] => rw [childData, ofItems]
  | n :: ns =>
    have hn := ofData_fields n [] (fun _ _ => rfl)
    have hns := ofItems_childData ns
    rw [List.append_nil] at hn
    rw [childData, ofItems, hn]
    simp only
    rw [hns]

end

theorem ofData_toData (n : StoredNode) : ofData n.toData = .ok n := by
  have h := ofData_fields n [] (fun _ _ => rfl)
  rwa [List.append_nil] at h

end StoredNode

theorem Stored.ofData_toData (t : Stored) : Stored.ofData t.toData = .ok t := by
  obtain ⟨source, node⟩ := t
  cases node with
  | none => rfl
  | some n =>
    have hmore : ∀ key ∈ nodeKeys, (Data.record [("source", source)]).get? key = none := by
      intro key hkey
      have hsource : "source" ∉ nodeKeys := by decide
      refine Data.get?_record_eq_none fun hmem => hsource ?_
      obtain rfl := List.mem_singleton.1 hmem
      exact hkey
    have hkeys : n.fields.map Prod.fst ⊆ nodeKeys := n.keys_fields
    have hsource : (Data.record (n.fields ++ [("source", source)])).get? "source" =
        some source := by
      rw [Data.get?_record_append, Data.get?_record_eq_none fun hmem =>
        absurd (hkeys hmem) (by decide)]
      rfl
    have hkind : (Data.record (n.fields ++ [("source", source)])).get? "kind" =
        some (.text n.kind.label) :=
      n.get?_fields hmore (by decide)
    have hnode := n.ofData_fields _ hmore
    rw [Stored.ofData, toData, Data.requiredField]
    simp only [hsource, hkind, hnode]

/-! ## Trees and their stored forms -/

mutual

theorem Node.node_stored (n : Node) : n.stored.node = .ok n := by
  match n with
  | ⟨kind, name, value, children, returns⟩ =>
    have hchildren := Node.nodes_storedAll children
    have hreturns := Node.node?_stored? returns
    rw [Node.stored, StoredNode.node, Data.asText?_ofText?, Data.asText?_ofText?, hchildren,
      hreturns]
    rfl

theorem Node.nodes_storedAll (ns : List Node) :
    StoredNode.nodes (Node.storedAll ns) = .ok ns := by
  match ns with
  | [] => rfl
  | n :: ns =>
    have hn := Node.node_stored n
    have hns := Node.nodes_storedAll ns
    rw [Node.storedAll, StoredNode.nodes, hn, hns]
    rfl

theorem Node.node?_stored? (n? : Option Node) :
    StoredNode.node? (Node.stored? n?) = .ok n? := by
  match n? with
  | none => rfl
  | some n =>
    have hn := Node.node_stored n
    rw [Node.stored?, StoredNode.node?, hn]
    rfl

end

theorem typeExpr_stored (t : TypeExpr) : t.stored.typeExpr = .ok t := by
  obtain ⟨source, node⟩ := t
  have hnode := Node.node?_stored? node
  have hmap : node.map Node.stored = Node.stored? node := by
    cases node <;> rfl
  unfold stored Stored.typeExpr
  simp only [hmap, hnode]
  rfl

theorem Stored.typeExpr?_stored (t : Option TypeExpr) :
    Stored.typeExpr? (t.map TypeExpr.stored) = .ok t := by
  cases t with
  | none => rfl
  | some t =>
    rw [Option.map_some, Stored.typeExpr?, typeExpr_stored]
    rfl

end TypeExpr

/-! ## Comments -/

/-- Items that are read back one by one are read back as a row. -/
theorem mapM_map_eq_ok {α β : Type} {f : α → β} {read : β → Except ReadError α}
    (h : ∀ x, read (f x) = .ok x) (xs : List α) : (xs.map f).mapM read = .ok xs := by
  induction xs with
  | nil => rfl
  | cons x xs ih =>
    rw [List.map_cons, List.mapM_cons, h x, ih]
    rfl

theorem TypeExpr.Stored.ofField?_toData? {d : Data} {key : String} {t : Option TypeExpr.Stored}
    (h : d.get? key = some (TypeExpr.Stored.toData? t)) :
    TypeExpr.Stored.ofField? d key = .ok t := by
  unfold TypeExpr.Stored.ofField? Data.recordField?
  rw [h]
  cases t with
  | none => rfl
  | some t =>
    have hread := t.ofData_toData
    -- the map of a type is never empty, so it is not taken for an absent one
    obtain ⟨e, es, hmap⟩ : ∃ e es, t.toData = .map (e :: es) := by
      obtain ⟨source, node⟩ := t
      cases node with
      | none => exact ⟨_, _, rfl⟩
      | some n =>
        obtain ⟨kind, name, value, children, returns⟩ := n
        exact ⟨_, _, rfl⟩
    rw [hmap] at hread
    rw [TypeExpr.Stored.toData?, hmap]
    simp only [Data.isTruthy, List.isEmpty_cons, Bool.not_false, if_true, hread]
    rfl

theorem StoredTag.ofData_toData (t : StoredTag) : StoredTag.ofData t.toData = .ok t := by
  have htype : TypeExpr.Stored.ofField? t.toData "type" = .ok t.type :=
    TypeExpr.Stored.ofField?_toData? rfl
  unfold StoredTag.ofData
  rw [htype]
  rfl

theorem StoredPart.ofData_toData (p : StoredPart) : StoredPart.ofData p.toData = .ok p := by
  cases p with
  | tag t =>
    have hmap : t.toData.isMap = true := rfl
    rw [StoredPart.toData, StoredPart.ofData, dif_neg (by rw [hmap]; decide),
      StoredTag.ofData_toData]
    rfl
  | plain d h => rw [StoredPart.toData, StoredPart.ofData, dif_pos h]

theorem StoredComment.ofData_toData (c : StoredComment) :
    StoredComment.ofData c.toData = .ok c := by
  have hcontent := mapM_map_eq_ok StoredPart.ofData_toData c.content
  have hitems : c.toData.itemsField "content" = .ok (c.content.map StoredPart.toData) := rfl
  unfold StoredComment.ofData
  rw [hitems]
  simp only [bind, Except.bind]
  rw [hcontent]
  rfl

theorem StoredFile.ofData_toData (f : StoredFile) : StoredFile.ofData f.toData = .ok f := by
  have hcomments := mapM_map_eq_ok StoredComment.ofData_toData f.comments
  have hitems : f.toData.recordsField "comments" = .ok (f.comments.map StoredComment.toData) := rfl
  unfold StoredFile.ofData
  rw [hitems]
  simp only [bind, Except.bind]
  rw [hcomments]
  rfl

/-! ## Comments and their stored forms -/

theorem Tag.toTag_stored (t : Tag) : t.stored.toTag = .ok t := by
  have htype := TypeExpr.Stored.typeExpr?_stored t.type
  unfold Tag.stored StoredTag.toTag
  simp only [htype, Data.asText?_ofText?]
  rfl

theorem Part.toPart_stored (p : Part) : p.stored.toPart = .ok p := by
  cases p with
  | text s => rfl
  | tag t =>
    rw [Part.stored, StoredPart.toPart, Tag.toTag_stored]
    rfl

theorem Comment.toComment_stored (c : Comment) : c.stored.toComment = .ok c := by
  have hcontent := mapM_map_eq_ok Part.toPart_stored c.content
  unfold Comment.stored StoredComment.toComment
  simp only [hcontent]
  rfl

theorem FileComments.toFileComments_stored (f : FileComments) :
    f.stored.toFileComments = .ok f := by
  have hcomments := mapM_map_eq_ok Comment.toComment_stored f.comments
  unfold FileComments.stored StoredFile.toFileComments
  simp only [hcomments]
  rfl

/-! ## All records -/

/-- What is written is read back. -/
def RoundTrip {α : Type} (read : Data → Except ReadError α) (write : α → Data) : Prop :=
  ∀ x, read (write x) = .ok x

/-- Data written anew after they were read. -/
def restored {α : Type} (read : Data → Except ReadError α) (write : α → Data) (d : Data) :
    Except ReadError Data :=
  (read d).map write

/-- Data that can be read at all stay as they are once they have been written anew. -/
def Settles {α : Type} (read : Data → Except ReadError α) (write : α → Data) : Prop :=
  ∀ d d', restored read write d = .ok d' → restored read write d' = .ok d'

theorem RoundTrip.settles {α : Type} {read : Data → Except ReadError α} {write : α → Data}
    (h : RoundTrip read write) : Settles read write := by
  intro d d' hd
  unfold restored at hd ⊢
  cases hx : read d with
  | error e =>
    rw [hx] at hd
    cases hd
  | ok x =>
    rw [hx] at hd
    cases hd
    rw [h x]
    rfl

/-- What is read in two steps is read back if each step gives back what it was given. -/
theorem RoundTrip.andThen {α β : Type} {read : Data → Except ReadError β} {write : β → Data}
    {make : β → Except ReadError α} {stored : α → β} (hread : RoundTrip read write)
    (hmake : ∀ x, make (stored x) = .ok x) :
    RoundTrip (fun d => read d >>= make) fun x => write (stored x) := by
  intro x
  have hx := hread (stored x)
  simp only [hx]
  exact hmake x

/-- **Round trip of stored comments.** The comments of a file, a comment, a tag, a type expression
and a node of one are each read back from the data they are written as. And any data at all that
can be read as one of these settle when they are written anew: reading and writing them once more
changes nothing, whatever the fields hold that ought to be texts. -/
theorem stored_comments_round_trip :
    RoundTrip FileComments.ofData FileComments.toData ∧
    RoundTrip Comment.ofData Comment.toData ∧
    RoundTrip Tag.ofData Tag.toData ∧
    RoundTrip TypeExpr.ofData TypeExpr.toData ∧
    RoundTrip TypeExpr.Node.ofData TypeExpr.Node.toData ∧
    Settles StoredFile.ofData StoredFile.toData ∧
    Settles StoredComment.ofData StoredComment.toData ∧
    Settles StoredTag.ofData StoredTag.toData ∧
    Settles TypeExpr.Stored.ofData TypeExpr.Stored.toData ∧
    Settles TypeExpr.StoredNode.ofData TypeExpr.StoredNode.toData := by
  have hfile : RoundTrip StoredFile.ofData StoredFile.toData := StoredFile.ofData_toData
  have hcomment : RoundTrip StoredComment.ofData StoredComment.toData :=
    StoredComment.ofData_toData
  have htag : RoundTrip StoredTag.ofData StoredTag.toData := StoredTag.ofData_toData
  have htype : RoundTrip TypeExpr.Stored.ofData TypeExpr.Stored.toData :=
    TypeExpr.Stored.ofData_toData
  have hnode : RoundTrip TypeExpr.StoredNode.ofData TypeExpr.StoredNode.toData :=
    TypeExpr.StoredNode.ofData_toData
  refine ⟨?_, ?_, ?_, ?_, ?_, hfile.settles, hcomment.settles, htag.settles, htype.settles,
    hnode.settles⟩
  · exact hfile.andThen FileComments.toFileComments_stored
  · exact hcomment.andThen Comment.toComment_stored
  · exact htag.andThen Tag.toTag_stored
  · exact htype.andThen TypeExpr.typeExpr_stored
  · exact hnode.andThen TypeExpr.Node.node_stored

end ApiDoc
