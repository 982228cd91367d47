import ApiDoc.Proofs.Files.Path

/-!
# Paths from one folder to another

The steps from a folder to a place are settled by the two lists of names, and following them from
anywhere that ends in the folder leads to the place. A path that is given by such steps stays within
a folder as long as no double dot climbs above it, which is the same as saying that no double dot is
left at the front when the path is normalized.

* `stepsBetween_append_left`, `stepsBetween_below`: what two places share does not matter, and the
  steps to a place below are its names.
* `collapse_stepsBetween`: the steps lead where they should.
* `folderText_text`: the folder of a path is read off its text.
* `head?_normalize_eq_dots`: what a normalized path that starts with double dots has done.
* `prefix_collapse`: a path that stays within a folder leads to a place in it.
-/

namespace ApiDoc.Files

open Text

/-! ## Collapsing -/

theorem collapse_concat (names : List String) (n : String) :
    collapse (names ++ [n]) =
      if n = ".." then (collapse names).dropLast else collapse names ++ [n] := by
  unfold collapse
  rw [List.foldl_append, List.foldl_cons, List.foldl_nil, collapseStep]
  split
  · rw [List.dropLast_reverse]
  · rw [List.reverse_cons]

theorem mem_of_mem_collapse {names : List String} {n : String} (h : n ∈ collapse names) :
    n ∈ names := by
  have hrun : ∀ above : List String, n ∈ names.foldl collapseStep above → n ∈ above ∨ n ∈ names := by
    clear h
    induction names with
    | nil => exact fun above h => Or.inl h
    | cons m names ih =>
      intro above h
      rcases ih _ h with h | h
      · unfold collapseStep at h
        split at h
        · exact Or.inl (List.mem_of_mem_tail h)
        · rcases List.mem_cons.1 h with rfl | h
          · exact Or.inr List.mem_cons_self
          · exact Or.inl h
      · exact Or.inr (List.mem_cons_of_mem _ h)
  exact (hrun [] (List.mem_reverse.1 h)).resolve_left List.not_mem_nil

theorem dots_notMem_collapse (names : List String) : ".." ∉ collapse names := by
  have hrun : ∀ above : List String, ".." ∉ above → ".." ∉ names.foldl collapseStep above := by
    induction names with
    | nil => exact fun above h => h
    | cons n names ih =>
      intro above habove
      apply ih
      unfold collapseStep
      split
      · exact fun hmem => habove (List.mem_of_mem_tail hmem)
      · next hn =>
        intro hmem
        rcases List.mem_cons.1 hmem with he | hmem
        · exact hn he.symm
        · exact habove hmem
  intro hmem
  exact hrun [] List.not_mem_nil (List.mem_reverse.1 hmem)

theorem foldl_collapseStep_replicate (k : Nat) (above : List String) :
    (List.replicate k "..").foldl collapseStep above = above.drop k := by
  induction k generalizing above with
  | zero => rfl
  | succ k ih =>
    rw [List.replicate_succ, List.foldl_cons, collapseStep, if_pos rfl, ih, List.drop_tail]

theorem collapse_of_no_dots {names : List String} (h : ".." ∉ names) : collapse names = names :=
  collapse_append [] h

/-- Names and as many double dots behind them cancel. -/
theorem collapse_cancel (front back : List String) {names : List String} (h : ".." ∉ names) :
    collapse (front ++ names ++ List.replicate names.length ".." ++ back) =
      collapse (front ++ back) := by
  unfold collapse
  rw [List.foldl_append, List.foldl_append, List.foldl_append, foldl_collapseStep h,
    foldl_collapseStep_replicate, List.drop_left' List.length_reverse, List.foldl_append]

/-! ## Steps -/

theorem commonLength_append (front a b : List String) :
    commonLength (front ++ a) (front ++ b) = front.length + commonLength a b := by
  induction front with
  | nil => simp
  | cons n front ih =>
    rw [List.cons_append, List.cons_append, commonLength, if_pos rfl, ih, List.length_cons]
    omega

/-- What two places share does not matter. -/
theorem stepsBetween_append_left (front a b : List String) :
    stepsBetween (front ++ a) (front ++ b) = stepsBetween a b := by
  unfold stepsBetween
  simp only [commonLength_append, List.length_append]
  have hup : front.length + a.length - (front.length + commonLength a b) =
      a.length - commonLength a b := by omega
  rw [hup, List.drop_append, List.drop_of_length_le (by omega), List.nil_append]
  congr 2
  omega

theorem stepsBetween_below (a b : List String) : stepsBetween a (a ++ b) = b := by
  have h := stepsBetween_append_left a [] b
  rw [List.append_nil] at h
  exact h

theorem exists_stepsBetween (a b : List String) :
    ∃ shared own other, a = shared ++ own ∧ b = shared ++ other ∧
      stepsBetween a b = List.replicate own.length ".." ++ other := by
  induction a generalizing b with
  | nil => exact ⟨[], [], b, rfl, rfl, rfl⟩
  | cons x a ih =>
    cases b with
    | nil => exact ⟨[], x :: a, [], rfl, rfl, rfl⟩
    | cons y b =>
      by_cases hxy : x = y
      · obtain ⟨shared, own, other, rfl, rfl, hsteps⟩ := ih b
        refine ⟨x :: shared, own, other, rfl, by rw [hxy]; rfl, ?_⟩
        rw [← hsteps, ← hxy]
        exact stepsBetween_append_left [x] _ _
      · refine ⟨[], x :: a, y :: b, rfl, rfl, ?_⟩
        unfold stepsBetween
        rw [commonLength, if_neg hxy]
        rfl

/-- The steps from a folder to a place lead there, from wherever the folder is reached. -/
theorem collapse_stepsBetween (front b : List String) {a : List String} (ha : ".." ∉ a) :
    collapse (front ++ a ++ stepsBetween a b) = collapse (front ++ b) := by
  obtain ⟨shared, own, other, rfl, rfl, hsteps⟩ := exists_stepsBetween a b
  have hown : ".." ∉ own := fun hmem => ha (List.mem_append_right shared hmem)
  have hcancel := collapse_cancel (front ++ shared) other hown
  rw [hsteps]
  simp only [List.append_assoc] at hcancel ⊢
  exact hcancel

/-! ## Texts of paths -/

theorem Path.Lexical.parent {p : Path} (h : p.Lexical) : p.parent.Lexical :=
  ⟨h.root, fun n hn => h.names n (List.dropLast_subset _ hn)⟩

theorem isAbsoluteText_eq (s : String) : isAbsoluteText s = (Path.ofText s).isAbsolute := by
  unfold isAbsoluteText Path.isAbsolute Path.ofText Path.rootOf
  simp only
  split
  · next h => rw [h]; rfl
  · next h => rw [h]; rfl
  · next h => rw [h]; rfl
  · next h =>
    cases hs : s.toList with
    | nil => rfl
    | cons c cs =>
      have hc : (c == '/') = false := by
        rw [beq_eq_false_iff_ne]
        rintro rfl
        exact h cs hs
      exact hc

theorem absoluteNames_text (cwd : List String) {p : Path} (hp : p.Lexical) :
    absoluteNames cwd p.text = collapse (if p.isAbsolute then p.names else cwd ++ p.names) := by
  have hnames : namesOf p.text = p.names := congrArg Path.names (Path.ofText_text hp)
  unfold absoluteNames
  rw [isAbsoluteText_eq, Path.ofText_text hp, hnames]

theorem joinSlashes_concat {names : List String} (h : names ≠ []) (n : String) :
    joinSlashes (names ++ [n]) = joinSlashes names ++ "/" ++ n := by
  unfold joinSlashes
  rw [String.intercalate_append_of_ne_nil h (List.cons_ne_nil n []), String.intercalate_singleton]

theorem IsName.exists_concat {n : String} (h : IsName n) :
    ∃ cs c, n.toList = cs ++ [c] ∧ c ≠ '/' := by
  have hne : n.toList ≠ [] := fun hnil => h.ne_empty (String.toList_eq_nil_iff.1 hnil)
  refine ⟨_, _, (List.dropLast_concat_getLast hne).symm, fun hslash => h.no_slash ?_⟩
  rw [← hslash]
  exact List.getLast_mem hne

/-- Names put together do not end in a slash. -/
theorem exists_concat_joinSlashes {names : List String} (hne : names ≠ [])
    (h : ∀ n ∈ names, IsName n) :
    ∃ cs c, (joinSlashes names).toList = cs ++ [c] ∧ c ≠ '/' := by
  obtain ⟨front, n, rfl⟩ : ∃ front n, names = front ++ [n] :=
    ⟨_, _, (List.dropLast_concat_getLast hne).symm⟩
  obtain ⟨cs, c, hcs, hc⟩ := (h n (List.mem_append_right front List.mem_cons_self)).exists_concat
  by_cases hfront : front = []
  · subst hfront
    exact ⟨cs, c, hcs, hc⟩
  · refine ⟨(joinSlashes front ++ "/").toList ++ cs, c, ?_, hc⟩
    rw [joinSlashes_concat hfront, String.toList_append, hcs, List.append_assoc]

/-- What is before the last slash. -/
theorem folderText_eq {s : String} {front : List String} {n : String}
    (hsplit : splitSlashes s = front ++ [n]) :
    folderText s =
      if front = [] then ""
      else if (joinSlashes (front ++ [""])).toList.all (· == '/') then joinSlashes (front ++ [""])
      else String.ofList
        (((joinSlashes (front ++ [""])).toList.reverse.dropWhile (· == '/')).reverse) := by
  unfold folderText
  split
  · next hnil =>
    rw [hsplit] at hnil
    exact absurd hnil (by simp)
  · next pieces _ =>
    rw [hsplit, List.dropLast_concat]
    by_cases hfront : front = []
    · subst hfront
      rfl
    · have hlength : (front ++ [n]).length ≠ 1 := by
        have := List.length_pos_iff.2 hfront
        rw [List.length_append, List.length_singleton]
        omega
      simp only [hlength, hfront, if_false]

theorem dropWhile_slash_reverse {cs : List Char} {c : Char} (hc : c ≠ '/') :
    ((cs ++ [c] ++ ['/']).reverse.dropWhile (· == '/')).reverse = cs ++ [c] := by
  simp [hc]

theorem Path.text_of_ne_nil {p : Path} (h : p.names ≠ []) :
    p.text = p.root ++ joinSlashes p.names := by
  unfold Path.text
  rw [if_neg]
  rw [Bool.and_eq_true, List.isEmpty_iff]
  exact fun hboth => h hboth.2

theorem joinSlashes_cons_empty {names : List String} (h : names ≠ []) :
    joinSlashes ("" :: names) = "/" ++ joinSlashes names := by
  unfold joinSlashes
  rw [String.intercalate_cons_of_ne_nil h, String.empty_append]

/-- The slashes of the root are empty pieces in front of the names. -/
theorem exists_splitSlashes_text {root n : String} {dir : List String}
    (hroot : root = "" ∨ root = "/" ∨ root = "//") (hnames : ∀ m ∈ dir ++ [n], IsName m) :
    ∃ empties, splitSlashes (root ++ joinSlashes (dir ++ [n])) = empties ++ dir ++ [n] ∧
      joinSlashes (empties ++ dir ++ [""]) = root ++ joinSlashes (dir ++ [""]) ∧
      (empties = [] ↔ root = "") := by
  have hpieces : splitSlashes (joinSlashes (dir ++ [n])) = dir ++ [n] := by
    obtain ⟨m, ms, hms⟩ := List.exists_cons_of_ne_nil (List.append_ne_nil_of_right_ne_nil dir
      (List.cons_ne_nil n []))
    rw [hms] at hnames ⊢
    exact splitSlashes_joinSlashes hnames
  have hend : dir ++ [""] ≠ [] := List.append_ne_nil_of_right_ne_nil dir (List.cons_ne_nil "" [])
  rcases hroot with rfl | rfl | rfl
  · refine ⟨[], ?_, ?_, by simp⟩
    · rw [String.empty_append, hpieces, List.nil_append]
    · rw [String.empty_append, List.nil_append]
  · refine ⟨[""], ?_, ?_, by simp⟩
    · rw [splitSlashes_slash, hpieces]
      rfl
    · exact joinSlashes_cons_empty hend
  · have htwo : ∀ s, "//" ++ s = "/" ++ ("/" ++ s) := by
      intro s
      rw [← String.append_assoc]
      rfl
    refine ⟨["", ""], ?_, ?_, by simp⟩
    · rw [htwo, splitSlashes_slash, splitSlashes_slash, hpieces]
      rfl
    · rw [htwo, ← joinSlashes_cons_empty hend, ← joinSlashes_cons_empty (List.cons_ne_nil _ _)]
      rfl

/-- The folder of a path with names in it is the path without the last one. -/
theorem folderText_text {p : Path} (hp : p.Lexical) (hne : p.names ≠ []) :
    (if (folderText p.text).isEmpty then "." else folderText p.text) = p.parent.text := by
  obtain ⟨root, names⟩ := p
  obtain ⟨hroot, hnames⟩ := hp
  simp only at hroot hnames hne
  obtain ⟨dir, n, rfl⟩ : ∃ dir n, names = dir ++ [n] :=
    ⟨_, _, (List.dropLast_concat_getLast hne).symm⟩
  have hdir : ∀ m ∈ dir, IsName m := fun m hm => hnames m (List.mem_append_left _ hm)
  have hparent : (⟨root, dir ++ [n]⟩ : Path).parent = ⟨root, dir⟩ := by
    unfold Path.parent
    rw [List.dropLast_concat]
  obtain ⟨empties, hsplit, hjoin, hnil⟩ := exists_splitSlashes_text hroot hnames
  rw [Path.text_of_ne_nil hne, hparent, folderText_eq hsplit, hjoin]
  by_cases hempty : dir = []
  · subst hempty
    rw [List.append_nil]
    rcases hroot with rfl | rfl | rfl
    · rw [hnil.2 rfl]
      rfl
    · have hslash : empties ≠ [] := mt hnil.1 (by decide)
      rw [if_neg hslash]
      rfl
    · have hslash : empties ≠ [] := mt hnil.1 (by decide)
      rw [if_neg hslash]
      rfl
  · obtain ⟨cs, c, hcs, hc⟩ := exists_concat_joinSlashes hempty hdir
    have hlist : (root ++ joinSlashes (dir ++ [""])).toList = root.toList ++ cs ++ [c] ++ ['/'] := by
      rw [joinSlashes_concat hempty, String.append_empty]
      simp [hcs]
    have hall : ((root ++ joinSlashes (dir ++ [""])).toList.all (· == '/')) = false := by
      rw [hlist]
      simp [hc]
    have hfolder : String.ofList (root.toList ++ cs ++ [c]) = root ++ joinSlashes dir := by
      rw [List.append_assoc, ← hcs, ← String.toList_append, String.ofList_toList]
    have hfilled : (root ++ joinSlashes dir).isEmpty = false := by
      rw [Bool.eq_false_iff, Ne, String.isEmpty_iff, ← String.toList_eq_nil_iff]
      simp [hcs]
    have hfront : empties ++ dir ≠ [] := List.append_ne_nil_of_right_ne_nil empties hempty
    rw [if_neg hfront, hall, hlist]
    simp only [Bool.false_eq_true, if_false]
    rw [dropWhile_slash_reverse hc, hfolder, hfilled, Path.text_of_ne_nil hempty]
    rfl

/-- The folder of a file is where its path leads to without the last name. -/
theorem absoluteNames_folderText (cwd : List String) {p : Path} (hp : p.Lexical)
    (hne : p.names ≠ []) :
    absoluteNames cwd (if (folderText p.text).isEmpty then "." else folderText p.text) =
      collapse (if p.isAbsolute then p.names.dropLast else cwd ++ p.names.dropLast) := by
  rw [folderText_text hp hne, absoluteNames_text cwd hp.parent]
  rfl

/-! ## Normalized paths -/

/-- One name taken into a relative path, latest first: a double dot takes back the name before it,
unless there is none to take back. -/
def normalizeStep (above : List String) (name : String) : List String :=
  if name = ".." then
    match above with
    | [] => [".."]
    | last :: rest => if last = ".." then ".." :: last :: rest else rest
  else name :: above

/-- A relative path with the double dots collapsed as far as its own names allow. -/
def normalize (names : List String) : List String :=
  (names.foldl normalizeStep []).reverse

/-- Do the names, followed from a folder so many levels down, never lead above the top? -/
def staysWithin : Nat → List String → Bool
  | _, [] => true
  | depth, name :: names =>
    if name = ".." then
      match depth with
      | 0 => false
      | depth + 1 => staysWithin depth names
    else staysWithin (depth + 1) names

theorem staysWithin_cons (depth : Nat) (name : String) (names : List String) :
    staysWithin depth (name :: names) =
      if name = ".." then
        match depth with
        | 0 => false
        | depth + 1 => staysWithin depth names
      else staysWithin (depth + 1) names := by
  cases depth with
  | zero => rw [staysWithin]
  | succ depth => rw [staysWithin]

theorem getLast?_normalizeStep {above : List String} (h : above.getLast? = some "..")
    (name : String) : (normalizeStep above name).getLast? = some ".." := by
  cases above with
  | nil => cases h
  | cons last rest =>
    have hcons : ∀ x : String, (x :: last :: rest).getLast? = some ".." := by
      intro x
      rw [List.getLast?_cons_cons]
      exact h
    unfold normalizeStep
    split
    · simp only
      split
      · exact hcons _
      · next hlast =>
        cases rest with
        | nil => exact absurd (Option.some.inj h) hlast
        | cons x rest => exact h
    · exact hcons _

/-- Once a path has climbed above its start, it does not come back. -/
theorem getLast?_foldl_normalizeStep (names : List String) {above : List String}
    (h : above.getLast? = some "..") :
    (names.foldl normalizeStep above).getLast? = some ".." := by
  induction names generalizing above with
  | nil => exact h
  | cons name names ih => exact ih (getLast?_normalizeStep h name)

theorem getLast?_foldl_normalizeStep_iff (names : List String) {above : List String}
    (h : ".." ∉ above) :
    (names.foldl normalizeStep above).getLast? = some ".." ↔
      staysWithin above.length names = false := by
  induction names generalizing above with
  | nil =>
    rw [staysWithin, List.foldl_nil]
    constructor
    · intro hlast
      exact absurd (List.mem_of_getLast? hlast) h
    · exact nofun
  | cons name names ih =>
    rw [List.foldl_cons, staysWithin_cons]
    by_cases hname : name = ".."
    · rw [if_pos hname, hname]
      cases above with
      | nil =>
        have hclimbed : (names.foldl normalizeStep [".."]).getLast? = some ".." :=
          getLast?_foldl_normalizeStep names rfl
        exact ⟨fun _ => rfl, fun _ => hclimbed⟩
      | cons last rest =>
        obtain ⟨hlast, hrest⟩ := not_or.1 (mt List.mem_cons.2 h)
        have hback : normalizeStep (last :: rest) ".." = rest := if_neg (Ne.symm hlast)
        rw [hback]
        exact ih hrest
    · have hdown : normalizeStep above name = name :: above := if_neg hname
      rw [if_neg hname, hdown]
      exact ih (not_or.2 ⟨Ne.symm hname, h⟩ ∘ List.mem_cons.1)

/-- Double dots are left at the front just when the path leads above its start. -/
theorem head?_normalize_eq_dots (names : List String) :
    (normalize names).head? = some ".." ↔ staysWithin 0 names = false := by
  rw [normalize, List.head?_reverse]
  exact getLast?_foldl_normalizeStep_iff names List.not_mem_nil

theorem staysWithin_append {names : List String} (h : ".." ∉ names) (depth : Nat)
    (more : List String) :
    staysWithin depth (names ++ more) = staysWithin (depth + names.length) more := by
  induction names generalizing depth with
  | nil => rfl
  | cons n names ih =>
    obtain ⟨hn, hnames⟩ := not_or.1 (mt List.mem_cons.2 h)
    rw [List.cons_append, staysWithin_cons, if_neg (Ne.symm hn), ih hnames, List.length_cons]
    congr 1
    omega

theorem staysWithin_front {depth : Nat} {names front : List String}
    (h : staysWithin depth names = true) (hfront : front <+: names) :
    staysWithin depth front = true := by
  induction front generalizing depth names with
  | nil => rfl
  | cons n front ih =>
    obtain ⟨rest, rfl⟩ := hfront
    rw [List.cons_append, staysWithin_cons] at h
    rw [staysWithin_cons]
    split at h
    · next hn =>
      rw [if_pos hn]
      cases depth with
      | zero => cases h
      | succ depth => exact ih h (List.prefix_append _ _)
    · next hn =>
      rw [if_neg hn]
      exact ih h (List.prefix_append _ _)

theorem foldl_collapseStep_of_staysWithin (base above : List String) {names : List String}
    (h : staysWithin above.length names = true) :
    ∃ above', names.foldl collapseStep (above ++ base) = above' ++ base := by
  induction names generalizing above with
  | nil => exact ⟨above, rfl⟩
  | cons n names ih =>
    rw [staysWithin_cons] at h
    rw [List.foldl_cons, collapseStep]
    split at h
    · next hn =>
      rw [if_pos hn]
      cases above with
      | nil => cases h
      | cons last above => exact ih above h
    · next hn =>
      rw [if_neg hn]
      exact ih (n :: above) h

/-- A path that stays within a folder leads to a place in the folder. -/
theorem prefix_collapse {root names : List String} (hroot : ".." ∉ root)
    (h : staysWithin 0 names = true) : root <+: collapse (root ++ names) := by
  obtain ⟨above, habove⟩ := foldl_collapseStep_of_staysWithin root.reverse [] h
  refine ⟨above.reverse, ?_⟩
  rw [List.nil_append] at habove
  rw [collapse, List.foldl_append, foldl_collapseStep hroot, List.append_nil, habove,
    List.reverse_append, List.reverse_reverse]

end ApiDoc.Files
