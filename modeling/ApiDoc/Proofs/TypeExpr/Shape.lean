import ApiDoc.Proofs.TypeExpr.Built

/-!
# The shape of parsed types

The type of nodes allows any combination of kind, name, value, operands and return type. Parsed
trees use few of them (`Node.Shaped`), at every node of the tree (`Node.Inside`).

What a production guarantees differs: a type may be a union, an operand may not, and a primary
expression is in addition neither unknown nor variadic, so that a modifier behind it finds nothing
of this kind (`Production.admits`).

* `Node.Sound.of_parts`: a tree is sound when its root is shaped and its parts are sound.
* `sound_of_built`: what each production builds, by induction.
* `shaped_of_parseNode`: so every node of a parsed type is shaped.
-/

namespace ApiDoc.TypeExpr

/-- The node is the root of the tree, or it stands in one of its operands or in its return type. -/
inductive Node.Inside (m : Node) : Node → Prop
  | root : Inside m m
  | child {n c : Node} : c ∈ n.children → Inside m c → Inside m n
  | returned {n r : Node} : n.returns = some r → Inside m r → Inside m n

/-- What a node holds, as far as its own kind and the kinds of its parts say. -/
structure Node.Shaped (n : Node) : Prop where
  union : n.kind = .union → 2 ≤ n.children.length ∧ ∀ c ∈ n.children, c.kind ≠ .union
  generic : n.kind = .generic → n.name.isSome ∧ n.children ≠ []
  /-- Record entries stand in records, and nothing else does. -/
  entries : ∀ c ∈ n.children, c.kind = .recordEntry ↔ n.kind = .record
  entry : n.kind = .recordEntry → n.name.isSome ∧ n.children.length ≤ 1
  modifier : n.kind ∈ [.nullable, .notNullable, .optional] →
    n.children.length = 1 ∧ ∀ c ∈ n.children, c.kind ≠ .union
  optional : n.kind = .optional → ∀ c ∈ n.children, c.kind ≠ .unknown ∧ c.kind ≠ .variadic
  parenthesis : n.kind = .parenthesis → n.children.length = 1
  variadic : n.kind = .variadic → n.children.length ≤ 1 ∧ ∀ c ∈ n.children, c.kind ≠ .union
  name : n.kind = .name → (∃ s ∈ n.name, s ≠ "") ∧ n.children = []
  literal : n.kind ∈ [.stringValue, .numberValue] → n.value.isSome ∧ n.children = []
  bare : n.kind ∈ [.any, .unknown] → n.value = none ∧ n.children = []
  /-- Functions alone have a return type. -/
  returns : ∀ r ∈ n.returns, n.kind = .function ∧ r.kind ≠ .union ∧ r.kind ≠ .recordEntry
  named : n.name.isSome → n.kind ∈ [.name, .generic, .recordEntry]
  valued : n.value.isSome → n.kind ∈ [.stringValue, .numberValue]

/-- Every node of the tree is shaped. -/
def Node.Sound (n : Node) : Prop :=
  ∀ m : Node, m.Inside n → m.Shaped

theorem Node.Sound.of_parts {n : Node} (hn : n.Shaped) (hchildren : ∀ c ∈ n.children, c.Sound)
    (hreturns : ∀ r ∈ n.returns, r.Sound) : n.Sound := by
  intro m hm
  cases hm with
  | root => exact hn
  | child hc hm => exact hchildren _ hc m hm
  | returned hr hm => exact hreturns _ hr m hm

/-- The kinds of nodes that a production can give. -/
def Production.admits : Production → Kind → Bool
  | .type, k => k != .recordEntry
  | .operand, k => !([.recordEntry, .union].contains k)
  | .suffixed _, k => !([.recordEntry, .union, .unknown, .variadic].contains k)
  | .primary, k => !([.recordEntry, .union, .unknown, .variadic].contains k)
  | .entry, k => k == .recordEntry

/-! ## Nodes by their form -/

section

variable {kind : Kind} {c : Node} {cs : List Node}

theorem admits_type_of_operand {k : Kind} (h : Production.operand.admits k = true) :
    Production.type.admits k = true := by
  cases k <;> first | rfl | cases h

theorem admits_operand_of_primary {k : Kind} (h : Production.primary.admits k = true) :
    Production.operand.admits k = true := by
  cases k <;> first | rfl | cases h

theorem ne_union_of_operand {k : Kind} (h : Production.operand.admits k = true) : k ≠ .union := by
  rintro rfl
  cases h

theorem ne_entry_of_type {k : Kind} (h : Production.type.admits k = true) : k ≠ .recordEntry := by
  rintro rfl
  cases h

/-- A modifier before an operand. -/
theorem shaped_under (hkind : kind ∈ [.nullable, .notNullable, .variadic])
    (hc : Production.operand.admits c.kind = true) : Node.Shaped { kind, children := [c] } := by
  have hunion := ne_union_of_operand hc
  have hentry := ne_entry_of_type (admits_type_of_operand hc)
  simp only [List.mem_cons, List.not_mem_nil, or_false] at hkind
  rcases hkind with rfl | rfl | rfl <;> constructor <;> simp [hunion, hentry]

/-- A modifier behind an expression, which is neither unknown nor variadic. -/
theorem shaped_behind (hkind : kind ∈ [.optional, .nullable, .notNullable])
    (hc : Production.primary.admits c.kind = true) : Node.Shaped { kind, children := [c] } := by
  have hoperand := admits_operand_of_primary hc
  have hunion := ne_union_of_operand hoperand
  have hentry := ne_entry_of_type (admits_type_of_operand hoperand)
  have hlone : c.kind ≠ .unknown ∧ c.kind ≠ .variadic := by
    constructor
    · intro he
      rw [he] at hc
      cases hc
    · intro he
      rw [he] at hc
      cases hc
  simp only [List.mem_cons, List.not_mem_nil, or_false] at hkind
  rcases hkind with rfl | rfl | rfl <;> constructor <;> simp [hunion, hentry, hlone]

theorem shaped_union (hlength : 2 ≤ cs.length)
    (hcs : ∀ c ∈ cs, Production.operand.admits c.kind = true) :
    Node.Shaped { kind := .union, children := cs } := by
  have hunion : ∀ c ∈ cs, c.kind ≠ .union := fun c hc => ne_union_of_operand (hcs c hc)
  have hentry : ∀ c ∈ cs, c.kind ≠ .recordEntry := fun c hc =>
    ne_entry_of_type (admits_type_of_operand (hcs c hc))
  constructor <;> simp +contextual [hlength, hunion, hentry]

theorem shaped_generic {s : String} (hne : cs ≠ [])
    (hcs : ∀ c ∈ cs, Production.type.admits c.kind = true) :
    Node.Shaped { kind := .generic, name := some s, children := cs } := by
  have hentry : ∀ c ∈ cs, c.kind ≠ .recordEntry := fun c hc => ne_entry_of_type (hcs c hc)
  constructor <;> simp +contextual [hne, hentry]

theorem shaped_record (hcs : ∀ c ∈ cs, Production.entry.admits c.kind = true) :
    Node.Shaped { kind := .record, children := cs } := by
  have hentry : ∀ c ∈ cs, c.kind = .recordEntry := fun c hc => eq_of_beq (hcs c hc)
  constructor <;> simp +contextual [hentry]

theorem shaped_function {returns : Option Node}
    (hcs : ∀ c ∈ cs, Production.type.admits c.kind = true)
    (hreturns : ∀ r ∈ returns, Production.operand.admits r.kind = true) :
    Node.Shaped { kind := .function, children := cs, returns } := by
  have hentry : ∀ c ∈ cs, c.kind ≠ .recordEntry := fun c hc => ne_entry_of_type (hcs c hc)
  have hreturn : ∀ r ∈ returns, r.kind ≠ .union ∧ r.kind ≠ .recordEntry := fun r hr =>
    ⟨ne_union_of_operand (hreturns r hr),
      ne_entry_of_type (admits_type_of_operand (hreturns r hr))⟩
  constructor <;> simp +contextual [hentry, hreturn]

theorem shaped_parenthesis (hc : Production.type.admits c.kind = true) :
    Node.Shaped { kind := .parenthesis, children := [c] } := by
  have hentry := ne_entry_of_type hc
  constructor <;> simp [hentry]

theorem shaped_entry {key : String} (hlength : cs.length ≤ 1)
    (hcs : ∀ c ∈ cs, Production.type.admits c.kind = true) :
    Node.Shaped { kind := .recordEntry, name := some key, children := cs } := by
  have hentry : ∀ c ∈ cs, c.kind ≠ .recordEntry := fun c hc => ne_entry_of_type (hcs c hc)
  constructor <;> simp +contextual [hlength, hentry]

end

/-- What a production builds has a kind that it admits, and is sound. -/
theorem sound_of_built {run level : Nat} {p : Production} {n : Node} (h : Built run p level n) :
    p.admits n.kind = true ∧ n.Sound := by
  induction h with
  | single _ ih => exact ⟨admits_type_of_operand ih.1, ih.2⟩
  | union hlength _ ih =>
    exact ⟨rfl, .of_parts (shaped_union hlength fun c hc => (ih c hc).1)
      (fun c hc => (ih c hc).2) (by simp)⟩
  | unknown => exact ⟨rfl, .of_parts (by constructor <;> simp) (by simp) (by simp)⟩
  | variadicAlone => exact ⟨rfl, .of_parts (by constructor <;> simp) (by simp) (by simp)⟩
  | under hkind _ ih =>
    refine ⟨?_, .of_parts (shaped_under hkind ih.1) (by simpa using ih.2) (by simp)⟩
    simp only [List.mem_cons, List.not_mem_nil, or_false] at hkind
    rcases hkind with rfl | rfl | rfl <;> rfl
  | suffixed _ _ ih => exact ⟨admits_operand_of_primary ih.1, ih.2⟩
  | primary _ ih => exact ih
  | array _ ih =>
    have hoperand := admits_type_of_operand (admits_operand_of_primary ih.1)
    exact ⟨rfl, .of_parts (shaped_generic (by simp) (by simpa using hoperand))
      (by simpa using ih.2) (by simp)⟩
  | behind hkind _ ih =>
    refine ⟨?_, .of_parts (shaped_behind hkind ih.1) (by simpa using ih.2) (by simp)⟩
    simp only [List.mem_cons, List.not_mem_nil, or_false] at hkind
    rcases hkind with rfl | rfl | rfl <;> rfl
  | name hs => exact ⟨rfl, .of_parts (by constructor <;> simp [hs]) (by simp) (by simp)⟩
  | generic hne _ ih =>
    exact ⟨rfl, .of_parts (shaped_generic hne fun c hc => (ih c hc).1)
      (fun c hc => (ih c hc).2) (by simp)⟩
  | stringValue s => exact ⟨rfl, .of_parts (by constructor <;> simp) (by simp) (by simp)⟩
  | numberValue s => exact ⟨rfl, .of_parts (by constructor <;> simp) (by simp) (by simp)⟩
  | any => exact ⟨rfl, .of_parts (by constructor <;> simp) (by simp) (by simp)⟩
  | parenthesis _ ih =>
    exact ⟨rfl, .of_parts (shaped_parenthesis ih.1) (by simpa using ih.2) (by simp)⟩
  | record _ ih =>
    exact ⟨rfl, .of_parts (shaped_record fun c hc => (ih c hc).1)
      (fun c hc => (ih c hc).2) (by simp)⟩
  | function _ _ ihparams ihreturns =>
    exact ⟨rfl, .of_parts
      (shaped_function (fun c hc => (ihparams c hc).1) fun r hr => (ihreturns r hr).1)
      (fun c hc => (ihparams c hc).2) fun r hr => (ihreturns r hr).2⟩
  | bareEntry key =>
    exact ⟨rfl, .of_parts (shaped_entry (by simp) (by simp)) (by simp) (by simp)⟩
  | typedEntry key _ ih =>
    exact ⟨rfl, .of_parts (shaped_entry (by simp) (by simpa using ih.1)) (by simpa using ih.2)
      (by simp)⟩

/-- **Shape of parsed types.** No parsed type is a mere record entry, and every node of its tree
holds what nodes of its kind hold. -/
theorem shaped_of_parseNode {source : String} {node : Node} (h : parseNode source = .ok node) :
    node.kind ≠ .recordEntry ∧ ∀ n : Node, n.Inside node → n.Shaped := by
  obtain ⟨ts, -, hbuilt⟩ := built_of_parseNode h
  obtain ⟨hkind, hsound⟩ := sound_of_built hbuilt
  exact ⟨ne_entry_of_type hkind, hsound⟩

/-- The tree of a record with an optional function that returns an unknown type. -/
def handlerNode : Node where
  kind := .record
  children := [
    { kind := .recordEntry, name := some "on", children := [
      { kind := .optional, children := [
        { kind := .function, children := [{ kind := .variadic }],
          returns := some { kind := .unknown } }] }] },
    { kind := .recordEntry, name := some "" }]

theorem handler_entry_shaped :
    parseNode "\x7bon: function(...): ?=, ''\x7d" = .ok handlerNode ∧
      Node.Shaped { kind := .recordEntry, name := some "" } := by
  have hparse : parseNode "\x7bon: function(...): ?=, ''\x7d" = .ok handlerNode := by decide +kernel
  refine ⟨hparse, (shaped_of_parseNode hparse).2 _ (.child ?_ .root)⟩
  simp [handlerNode]

end ApiDoc.TypeExpr
