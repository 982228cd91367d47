/-!
# Similar words

How alike two words are. The longest piece that both hold is matched, then what stands before it in
both, and what stands behind it, in the same way; the share of matched characters among those of
both words tells how alike they are.
-/

namespace ApiDoc.Text

/-- The number of characters that two rows share in front. -/
def sharedFront : List Char → List Char → Nat
  | a :: as, b :: bs => if a = b then sharedFront as bs + 1 else 0
  | _, _ => 0

/-- A piece that two words share: where it starts in each of them, and how long it is. -/
structure Overlap where
  left : Nat
  right : Nat
  size : Nat
deriving Repr, DecidableEq, Inhabited

/-- The longest shared piece; of several the first one in the left word, and there the first one in
the right word. -/
def longestOverlap (a b : List Char) : Overlap :=
  (List.range a.length).foldl
    (fun best i =>
      (List.range b.length).foldl
        (fun best j =>
          let size := sharedFront (a.drop i) (b.drop j)
          if best.size < size then ⟨i, j, size⟩ else best)
        best)
    ⟨0, 0, 0⟩

/-- The number of matched characters. The fuel is the length of the left word, of which every piece
takes a part. -/
def matchedWithin : (fuel : Nat) → List Char → List Char → Nat
  | 0, _, _ => 0
  | fuel + 1, a, b =>
    let p := longestOverlap a b
    if p.size = 0 then 0
    else
      matchedWithin fuel (a.take p.left) (b.take p.right) + p.size +
        matchedWithin fuel (a.drop (p.left + p.size)) (b.drop (p.right + p.size))

/-- The number of matched characters of two words. -/
def matched (a b : String) : Nat :=
  matchedWithin a.length a.toList b.toList

/-- Are three of five characters of two words matched, or more? -/
def isSimilar (a b : String) : Bool :=
  3 * (a.length + b.length) ≤ 10 * matched a b

/-- Is the first word, with its number of matched characters, at least as much like a common third
word of the given length? Of words that are equally alike the greater comes first. -/
def ranksBefore (length : Nat) (x y : String × Nat) : Bool :=
  let p := x.2 * (y.1.length + length)
  let q := y.2 * (x.1.length + length)
  q < p || (q == p && y.1 ≤ x.1)

/-- The words that are similar to a given one, the most similar ones, and at most three of them. -/
def similarWords (word : String) (words : List String) : List String :=
  let found := (words.filter (isSimilar · word)).map fun w => (w, matched w word)
  ((found.mergeSort (ranksBefore word.length)).take 3).map Prod.fst

end ApiDoc.Text
