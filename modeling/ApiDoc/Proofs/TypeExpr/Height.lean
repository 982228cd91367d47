import ApiDoc.Proofs.TypeExpr.Built
import ApiDoc.Proofs.TypeExpr.RoundTrip

/-!
# The height of parsed types

The limit on nesting counts operands inside each other. One level of it stands for at most three
nodes above each other, a record, its entry and a union, and for as many more as there are
modifiers behind the record: these wrap the tree without going a level deeper. So the height of a
parsed type is bounded by the limit and by the longest run of modifiers, and by the limit alone it
is not.

* `height_of_built`: the bound for each production, by induction on what it builds.
* `Ty.tower`: a type that reaches the bound, for every number of modifiers.
* `exists_height_eq`: so the bound is attained, whatever the longest run.
* `height_of_parsed_types`: both together.
* `modifiers_exceed_levels`: a short text whose tree is higher than four nodes for each level.
-/

namespace ApiDoc.TypeExpr

/-! ## Height -/

mutual

/-- How many nodes stand above each other, operands and return types alike. -/
def Node.height : Node → Nat
  | ⟨_, _, _, children, returns⟩ => 1 + max (Node.heightAll children) (Node.height? returns)

def Node.heightAll : List Node → Nat
  | [] => 0
  | n :: ns => max n.height (Node.heightAll ns)

def Node.height? : Option Node → Nat
  | none => 0
  | some n => n.height

end

theorem Node.heightAll_le {ns : List Node} {b : Nat} :
    Node.heightAll ns ≤ b ↔ ∀ n ∈ ns, n.height ≤ b :=
  le_iff_of_cons rfl fun _ _ => rfl

theorem Node.height?_le {r : Option Node} {b : Nat} :
    Node.height? r ≤ b ↔ ∀ n ∈ r, n.height ≤ b := by
  cases r <;> simp [Node.height?]

theorem Node.height_le {n : Node} {b : Nat} :
    n.height ≤ b + 1 ↔ (∀ c ∈ n.children, c.height ≤ b) ∧ ∀ r ∈ n.returns, r.height ≤ b := by
  obtain ⟨kind, name, value, children, returns⟩ := n
  rw [Node.height, Nat.add_comm, Nat.add_le_add_iff_right, Nat.max_le, Node.heightAll_le,
    Node.height?_le]

theorem Node.height_leaf (kind : Kind) (name value : Option String) :
    Node.height ⟨kind, name, value, [], none⟩ = 1 := rfl

theorem Node.height_one (kind : Kind) (name value : Option String) (c : Node) :
    Node.height ⟨kind, name, value, [c], none⟩ = c.height + 1 := by
  simp [Node.height, Node.heightAll, Node.height?, Nat.add_comm]

/-! ## The bound -/

/-- How high a production can build over inner operands of the given level. -/
def Production.Bounds (run level : Nat) : Production → Nat → Prop
  | .type, h => h ≤ level * (3 + run)
  | .operand, h => h < level * (3 + run)
  | .suffixed k, h => h ≤ level * (3 + run) + 2 + k
  | .primary, h => h ≤ level * (3 + run) + 2
  | .entry, h => h ≤ level * (3 + run) + 1

theorem bounds_operand {run level h : Nat} (hle : h ≤ level * (3 + run) + 2 + run) :
    Production.operand.Bounds run (level + 1) h := by
  rw [Production.Bounds, Nat.succ_mul]
  omega

theorem height_of_built {run level : Nat} {p : Production} {n : Node} (h : Built run p level n) :
    p.Bounds run level n.height := by
  induction h with
  | single _ ih => exact Nat.le_of_lt ih
  | @union d ns hlength _ ih =>
    obtain ⟨n, hn⟩ : ∃ n, n ∈ ns := List.exists_mem_of_length_pos (by omega)
    obtain ⟨b, hb⟩ : ∃ b, d * (3 + run) = b + 1 :=
      Nat.exists_eq_add_one.2 (Nat.lt_of_le_of_lt (Nat.zero_le _) (ih n hn))
    rw [Production.Bounds, hb]
    refine Node.height_le.2 ⟨fun c hc => ?_, by simp⟩
    have hlt := ih c hc
    rw [Production.Bounds, hb] at hlt
    omega
  | unknown =>
    apply bounds_operand
    rw [Node.height_leaf]
    omega
  | variadicAlone =>
    apply bounds_operand
    rw [Node.height_leaf]
    omega
  | under _ _ ih =>
    apply bounds_operand
    rw [Node.height_one]
    rw [Production.Bounds] at ih
    omega
  | suffixed hk _ ih =>
    apply bounds_operand
    rw [Production.Bounds] at ih
    omega
  | primary _ ih => exact ih
  | array _ ih =>
    rw [Production.Bounds] at ih ⊢
    rw [Node.height_one]
    omega
  | behind _ _ ih =>
    rw [Production.Bounds] at ih ⊢
    rw [Node.height_one]
    omega
  | generic _ _ ih => exact Nat.le_succ_of_le (Node.height_le.2 ⟨ih, by simp⟩)
  | parenthesis _ ih =>
    exact Nat.le_succ_of_le (Node.height_le.2 ⟨List.forall_mem_singleton.2 ih, by simp⟩)
  | record _ ih => exact Node.height_le.2 ⟨ih, by simp⟩
  | function _ _ ihparams ihreturns =>
    exact Nat.le_succ_of_le
      (Node.height_le.2 ⟨ihparams, fun r hr => Nat.le_of_lt (ihreturns r hr)⟩)
  | typedEntry key _ ih => exact Node.height_le.2 ⟨List.forall_mem_singleton.2 ih, by simp⟩
  | bareEntry key => exact Nat.le_add_left 1 _
  | name _ => exact Nat.le_add_left 1 _
  | stringValue s => exact Nat.le_add_left 1 _
  | numberValue s => exact Nat.le_add_left 1 _
  | any => exact Nat.le_add_left 1 _

/-! ## Types that reach the bound -/

/-- A closed operand with marks for optional values behind it. -/
def Closed.optionals (c : Closed) : Nat → Closed
  | 0 => c
  | k + 1 => .optional (c.optionals k)

theorem Closed.pieces_optionals (c : Closed) (k : Nat) :
    (c.optionals k).pieces = c.pieces ++ List.replicate k (mark '=') := by
  induction k with
  | zero => simp [Closed.optionals]
  | succ k ih =>
    rw [Closed.optionals, Closed.pieces, ih, List.append_assoc, List.replicate_succ']

theorem Closed.height_optionals (c : Closed) (k : Nat) :
    (c.optionals k).node.height = c.node.height + k := by
  induction k with
  | zero => rfl
  | succ k ih => rw [Closed.optionals, Closed.node, Node.height_one, ih, Nat.add_assoc]

theorem Closed.nest_optionals (c : Closed) (k : Nat) : (c.optionals k).nest = c.nest := by
  induction k with
  | zero => rfl
  | succ k ih => rw [Closed.optionals, Closed.nest, ih]

/-- A key of one letter. -/
def letterKey : Key :=
  .name { head := { first := 'a', rest := [], first_ok := rfl, rest_ok := by simp } }

/-- The alternatives of an operand and any value. -/
def Ty.orAny (c : Closed) : Ty :=
  .union (.closed c) (.closed .any) []

/-- Records inside each other, each of them with `k` modifiers behind it. -/
def Closed.tower (k : Nat) : Nat → Closed
  | 0 => (Closed.record [.bare letterKey]).optionals k
  | levels + 1 => (Closed.record [.typed letterKey (.orAny (.tower k levels))]).optionals k

/-- A union that reaches the bound at 64 levels. -/
def Ty.tower (k : Nat) : Ty :=
  .orAny (.tower k 63)

theorem Ty.height_orAny (c : Closed) : (Ty.orAny c).node.height = c.node.height + 1 := by
  have hpos : 1 ≤ c.node.height := by
    obtain ⟨kind, name, value, children, returns⟩ := c.node
    exact Nat.le_add_right 1 _
  simp [Ty.orAny, Ty.node, Operand.node, Operand.nodes, Closed.node, Node.height, Node.heightAll,
    Node.height?]
  omega

theorem Closed.height_tower (k levels : Nat) :
    (Closed.tower k levels).node.height + 1 = (levels + 1) * (3 + k) := by
  induction levels with
  | zero =>
    rw [Closed.tower, Closed.height_optionals]
    simp [Closed.node, Entry.nodes, Entry.node, Node.height_one, Node.height_leaf]
    omega
  | succ levels ih =>
    rw [Closed.tower, Closed.height_optionals, Nat.succ_mul, ← ih]
    simp [Closed.node, Entry.nodes, Entry.node, Node.height_one, Ty.height_orAny]
    omega

theorem Closed.nest_tower (k levels : Nat) : (Closed.tower k levels).nest = levels + 1 := by
  induction levels with
  | zero => rw [Closed.tower, Closed.nest_optionals]; rfl
  | succ levels ih =>
    rw [Closed.tower, Closed.nest_optionals]
    simp [Closed.nest, Entry.nestAll, Entry.nest, Ty.orAny, Ty.nest, Operand.nest, ih,
      Operand.nestAll]
    omega

/-! ## Runs of modifiers in a written type -/

/-- At most `k` modifiers stand behind one expression of the row. -/
def Runs (k : Nat) (ps : List Piece) : Prop :=
  ∀ p, longestRun (place p ps) ≤ k

section

variable {k : Nat} {ps tail : List Piece}

theorem Runs.blank (h : Runs k ps) : Runs k (.blank :: ps) :=
  fun p => h (p + 1)

/-- A word behind which the modifiers are counted. -/
theorem Runs.word (h : Runs k ps) (hahead : ∀ p, modifiersAhead (place p ps) ≤ k) (l : Lexeme) :
    Runs k (.word l :: ps) := by
  intro p
  rw [place, longestRun, Nat.max_le]
  refine ⟨?_, h _⟩
  split
  · exact hahead _
  · exact Nat.zero_le k

/-- A mark that ends no expression. -/
theorem Runs.mark (h : Runs k ps) {c : Char} (hc : c ∈ ['{', ':', '|', '=']) :
    Runs k (TypeExpr.mark c :: ps) := by
  intro p
  have hopen : ∀ ts, endsExpression (.mark c) ts = false := by
    simp only [List.mem_cons, List.not_mem_nil, or_false] at hc
    rcases hc with rfl | rfl | rfl | rfl <;> exact fun _ => rfl
  rw [place_mark, longestRun, hopen]
  simpa using h _

theorem modifiersAhead_optionals (htail : ∀ p, modifiersAhead (place p tail) = 0) (k p : Nat) :
    modifiersAhead (place p (List.replicate k (mark '=') ++ tail)) = k := by
  induction k generalizing p with
  | zero => exact htail p
  | succ k ih => rw [List.replicate_succ, List.cons_append, place_mark, modifiersAhead, ih]

theorem Runs.optionals (h : Runs k tail) (n : Nat) :
    Runs k (List.replicate n (TypeExpr.mark '=') ++ tail) := by
  induction n with
  | zero => exact h
  | succ n ih => exact ih.mark (by decide)

/-- The brace that closes a record, and the modifiers behind it. -/
theorem Runs.closed (h : Runs k tail) (htail : ∀ p, modifiersAhead (place p tail) = 0) :
    Runs k (TypeExpr.mark '}' :: (List.replicate k (TypeExpr.mark '=') ++ tail)) :=
  (h.optionals k).word (fun p => Nat.le_of_eq (modifiersAhead_optionals htail k p)) _

theorem Runs.tower (levels : Nat) (h : Runs k tail)
    (htail : ∀ p, modifiersAhead (place p tail) = 0) :
    Runs k ((Closed.tower k levels).pieces ++ tail) := by
  induction levels generalizing tail with
  | zero =>
    have hclosed := h.closed htail
    simp only [Closed.tower, Closed.pieces_optionals, Closed.pieces, Entry.listPieces, Entry.pieces,
      Entry.morePieces, List.append_nil, List.cons_append, List.nil_append]
    exact (hclosed.word (fun _ => Nat.zero_le k) _).mark (by decide)
  | succ levels ih =>
    have hclosed := h.closed htail
    have hany := (hclosed.word (fun _ => Nat.zero_le k) (.mark '*')).mark (c := '|') (by decide)
    have hinner := ((ih hany fun _ => rfl).blank.mark (c := ':') (by decide)).word
      (fun _ => Nat.zero_le k) letterKey.lexeme
    simp only [Closed.tower, Closed.pieces_optionals, Closed.pieces, Entry.listPieces, Entry.pieces,
      Entry.morePieces, Ty.orAny, Ty.pieces, Operand.pieces, Operand.morePieces, List.append_nil,
      List.cons_append, List.nil_append, List.append_assoc]
    exact hinner.mark (by decide)

end

theorem Ty.runs_tower (k : Nat) : Runs k (Ty.tower k).pieces := by
  have hnil : Runs k [] := fun _ => Nat.zero_le k
  have hany := (hnil.word (fun _ => Nat.zero_le k) (.mark '*')).mark (c := '|') (by decide)
  simp only [Ty.tower, Ty.orAny, Ty.pieces, Operand.pieces, Operand.morePieces, List.append_nil]
  exact hany.tower 63 fun _ => rfl

theorem Ty.parseNode_of_nest {t : Ty} (h : t.nest ≤ maxDepth) :
    parseNode t.written = .ok t.node := by
  obtain ⟨-, hq⟩ := t.outcome_parseNode.read h
  exact hq

/-! ## The exact bound -/

theorem height_le_of_parseNode {source : String} {node : Node} (h : parseNode source = .ok node) :
    ∃ ts, tokens source = .ok ts ∧ node.height ≤ 64 * (3 + longestRun ts) := by
  obtain ⟨ts, hts, hbuilt⟩ := built_of_parseNode h
  exact ⟨ts, hts, height_of_built hbuilt⟩

/-- Whatever the longest run of modifiers, some type is as high as the bound for it. -/
theorem exists_height_eq (k : Nat) :
    ∃ source node ts, parseNode source = .ok node ∧ tokens source = .ok ts ∧ longestRun ts = k ∧
      node.height = 64 * (3 + k) := by
  have hnest : (Ty.tower k).nest ≤ maxDepth := by
    simp [Ty.tower, Ty.orAny, Ty.nest, Operand.nest, Operand.nestAll, Closed.nest_tower,
      Closed.nest, maxDepth]
  have hheight : (Ty.tower k).node.height = 64 * (3 + k) := by
    rw [Ty.tower, Ty.height_orAny, Closed.height_tower]
  have hparse := Ty.parseNode_of_nest hnest
  have htokens := (Ty.tower k).tokens_written
  obtain ⟨ts, hts, hle⟩ := height_le_of_parseNode hparse
  obtain rfl := Except.ok.inj (htokens.symm.trans hts)
  refine ⟨_, _, _, hparse, htokens, ?_, hheight⟩
  -- A shorter run would bound the height by less.
  have hle' := Ty.runs_tower k 0
  omega

/-- **Height of parsed types.** With at most `k` modifiers behind each of its expressions, a parsed
type has at most `64 * (3 + k)` nodes above each other, and another type with such runs has as
many. So one modifier for each level leaves it at four nodes a level, and there is no bound for all
types. -/
theorem height_of_parsed_types {source : String} {node : Node} (h : parseNode source = .ok node) :
    ∃ ts, tokens source = .ok ts ∧ node.height ≤ 64 * (3 + longestRun ts) ∧
      (longestRun ts ≤ 1 → node.height ≤ 256) ∧
      ∃ source' node' ts', parseNode source' = .ok node' ∧ tokens source' = .ok ts' ∧
        longestRun ts' = longestRun ts ∧ node'.height = 64 * (3 + longestRun ts) := by
  obtain ⟨ts, hts, hle⟩ := height_le_of_parseNode h
  refine ⟨ts, hts, hle, fun hrun => ?_, exists_height_eq (longestRun ts)⟩
  calc node.height ≤ 64 * (3 + longestRun ts) := hle
    _ ≤ 64 * (3 + 1) := Nat.mul_le_mul_left 64 (Nat.add_le_add_left hrun 3)

/-- The tree of a list of lists. -/
def listsNode : Node where
  kind := .generic
  name := some "Array"
  children := [
    { kind := .generic, name := some "Array", children := [{ kind := .name, name := some "a" }] }]

/-- One modifier behind a name is within four nodes a level. -/
theorem height_of_lists :
    ∃ ts, tokens "Array<a[]>" = .ok ts ∧ longestRun ts = 1 ∧ listsNode.height ≤ 256 := by
  have hparse : parseNode "Array<a[]>" = .ok listsNode := by decide +kernel
  have hrun : (tokens "Array<a[]>").map longestRun = .ok 1 := by decide +kernel
  obtain ⟨ts, hts, -, hlevels, -⟩ := height_of_parsed_types hparse
  rw [hts] at hrun
  have hone : longestRun ts = 1 := Except.ok.inj hrun
  exact ⟨ts, hts, hone, hlevels (Nat.le_of_eq hone)⟩

theorem written_optionals (k : Nat) :
    (Ty.operand (.closed (Closed.any.optionals k))).written =
      "*" ++ String.ofList (List.replicate k '=') := by
  apply String.toList_injective
  simp [Ty.written, Ty.pieces, Operand.pieces, Closed.pieces_optionals, Closed.pieces, charsOf,
    mark, Piece.chars, Lexeme.text, List.flatMap_replicate]

/-- Two hundred and fifty-six modifiers behind one operand are read, and the tree has a node for
each of them and one for the operand. -/
theorem modifiers_exceed_levels :
    ∃ node, parseNode ("*" ++ String.ofList (List.replicate 256 '=')) = .ok node ∧
      node.height = 257 := by
  have hnest : (Ty.operand (.closed (Closed.any.optionals 256))).nest ≤ maxDepth := by
    rw [Ty.nest, Operand.nest, Closed.nest_optionals]
    decide
  rw [← written_optionals 256]
  exact ⟨_, Ty.parseNode_of_nest hnest, Closed.height_optionals .any 256⟩

end ApiDoc.TypeExpr
