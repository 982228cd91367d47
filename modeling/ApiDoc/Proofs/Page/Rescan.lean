import ApiDoc.Proofs.Page.Inert
import ApiDoc.Proofs.Page.Writing
import ApiDoc.Proofs.Text.Encoding

/-!
# Scanning pages

Pages may be written below the folder that the next run scans. No page contains `*/`, and writing
pages changes no other file. Pages are written in UTF-8; as long as their bytes are not read as a
text that does contain `*/`, they add no comments.

* `Tree.FilesFrom`: every file that can be opened is an old one or one with new content, through
  each way to change a tree.
* `eq_nil_of_commentsIn`: no comment is found in bytes that are read without `*/`.
* `readInert_of_noCloser`: the encodings in which this follows from the text; UTF-16 joins two bytes
  to a character, so there the text must have no null characters.
* `pages_inert`: the statement about the pages of a model, the texts of a later run and the scans of
  a tree that they are written to.
* `wide_page_adds_comment`: a page with null characters, read in UTF-16.
-/

namespace ApiDoc

namespace Files.Tree

/-! ## Files after a change -/

/-- Every file of the second tree that can be opened is in the first one, or its content is new. -/
def FilesFrom (new : ByteArray → Prop) (t t' : Tree) : Prop :=
  ∀ q bytes, t'.entry? q = some (.file (.ok bytes)) →
    t.entry? q = some (.file (.ok bytes)) ∨ new bytes

section

variable {new : ByteArray → Prop} {t t' t'' : Tree}

theorem FilesFrom.refl (t : Tree) : FilesFrom new t t :=
  fun _ _ h => Or.inl h

theorem FilesFrom.trans (h : FilesFrom new t t') (h' : FilesFrom new t' t'') :
    FilesFrom new t t'' :=
  fun q bytes hq => (h' q bytes hq).elim (h q bytes) Or.inr

theorem AddsFolders.filesFrom {names : List String} (h : AddsFolders names t t') :
    FilesFrom new t t' := by
  intro q bytes hq
  rcases h q with he | ⟨-, -, hfolder⟩
  · exact Or.inl (he ▸ hq)
  · rw [hfolder] at hq
    cases hq

theorem write_filesFrom (t : Tree) (cwd : List String) (p : Path) {content : ByteArray}
    (hnew : new content) : FilesFrom new t (t.write cwd p content).1 := by
  unfold write
  split
  · exact FilesFrom.refl t
  · next place hplace =>
    split
    · exact FilesFrom.refl t
    · exact FilesFrom.refl t
    · next hfolder _ =>
      intro q bytes hq
      by_cases he : q = place
      · subst he
        have hne : q ≠ [] := by
          rintro rfl
          exact hfolder (entry?_nil t)
        rw [entry?_set_self t hne] at hq
        cases hq
        exact Or.inr hnew
      · rw [entry?_set_of_ne t he] at hq
        exact Or.inl hq

end

end Files.Tree

namespace Page

open Text Files Analysis Scan

/-! ## Writing pages -/

section

variable {new : ByteArray → Prop} {style : Style} (hcwd : ∀ n ∈ style.cwd, IsName n) {docs : Docs}
include hcwd

theorem writeClass_filesFrom {root : Path} (hroot : root.Rooted) (t : Tree) {c : ClassDoc}
    (hnew : new (pageBytes style docs c)) :
    t.FilesFrom new (writeClass style docs root t c).1 := by
  have hparent := (rooted_pageTarget hcwd docs hroot c).parent
  have hfolders : t.FilesFrom new
      (t.createFolders style.cwd (pageTarget style docs root c).parent).1 :=
    (Tree.createFolders_adds hparent t style.cwd).filesFrom
  rw [pageTarget] at hfolders
  unfold writeClass
  simp only
  split
  · next hrun =>
    rw [hrun] at hfolders
    exact hfolders
  · next u hrun =>
    rw [hrun] at hfolders
    have hwrite := Tree.write_filesFrom u style.cwd (pageTarget style docs root c) hnew
    rw [pageTarget, pageBytes] at hwrite
    split
    · next hrun' =>
      rw [hrun'] at hwrite
      exact hfolders.trans hwrite
    · next hrun' =>
      rw [hrun'] at hwrite
      exact hfolders.trans hwrite

theorem writeAll_filesFrom {root : Path} (hroot : root.Rooted) (t : Tree) {cs : List ClassDoc}
    (hnew : ∀ c ∈ cs, new (pageBytes style docs c)) :
    t.FilesFrom new (writeAll style docs root t cs).1 := by
  induction cs generalizing t with
  | nil => exact Tree.FilesFrom.refl t
  | cons c cs ih =>
    obtain ⟨hc, hcs⟩ := List.forall_mem_cons.1 hnew
    exact (writeClass_filesFrom hcwd hroot t hc).trans (ih _ hcs)

theorem createFolders_filesFrom (destination : String) (t : Tree) :
    t.FilesFrom new (t.createFolders style.cwd (outputFolder style.cwd destination)).1 :=
  (Tree.createFolders_adds (rooted_outputFolder hcwd destination) t style.cwd).filesFrom

theorem renderIn_filesFrom {order : List ClassDoc}
    (hnew : ∀ c ∈ order, new (pageBytes style docs c)) (destination : String)
    (workers : Option Int) (t : Tree) :
    t.FilesFrom new (renderIn order style docs destination workers t).1 := by
  have hfolders : t.FilesFrom new _ := createFolders_filesFrom hcwd destination t
  unfold renderIn
  simp only
  split
  · next hrun =>
    rw [hrun] at hfolders
    exact hfolders
  · next u hrun =>
    rw [hrun] at hfolders
    split
    · exact hfolders
    · exact hfolders.trans (writeAll_filesFrom hcwd (rooted_outputFolder hcwd destination) u hnew)

theorem writeIndex_filesFrom {title : String}
    (hnew : new (indexPage title (renderNav style.cwd docs "" "")).toUTF8)
    (destination fileName : String) (t : Tree) :
    t.FilesFrom new (writeIndex style docs destination fileName title t).1 := by
  have hfolders : t.FilesFrom new _ := createFolders_filesFrom hcwd destination t
  unfold writeIndex writeIndexText
  simp only
  split
  · next hrun =>
    rw [hrun] at hfolders
    exact hfolders
  · next u hrun =>
    rw [hrun] at hfolders
    have hwrite := Tree.write_filesFrom u style.cwd
      ((outputFolder style.cwd destination).join (Path.ofText fileName)) hnew
    split
    · next hrun' =>
      rw [hrun'] at hwrite
      exact hfolders.trans hwrite
    · next hrun' =>
      rw [hrun'] at hwrite
      exact hfolders.trans hwrite

end

/-! ## Scanning again -/

theorem eq_of_mem_byteChars {c d : Char} (hd : d.toNat < 0x80) (h : d ∈ byteChars c) : d = c := by
  rcases byteChars_cases c with hone | ⟨-, hmany⟩
  · rw [hone] at h
    exact List.mem_singleton.1 h
  · exact absurd (hmany d h) (Nat.not_le.2 hd)

theorem head?_flatMap_byteChars {cs : List Char} {d : Char} (hd : d.toNat < 0x80)
    (h : (cs.flatMap byteChars).head? = some d) : cs.head? = some d := by
  cases cs with
  | nil => cases h
  | cons c cs =>
    have hne : byteChars c ≠ [] := by
      rcases byteChars_cases c with hone | ⟨hne, -⟩
      · rw [hone]
        exact List.cons_ne_nil _ _
      · exact hne
    rw [List.flatMap_cons, List.head?_append_of_ne_nil _ hne] at h
    rw [List.head?_cons, eq_of_mem_byteChars hd (List.mem_of_head? h)]

theorem noCloser_byteChars {cs : List Char} (h : NoCloser cs) :
    NoCloser (cs.flatMap byteChars) := by
  induction cs with
  | nil => exact noCloser_nil
  | cons c cs ih =>
    obtain ⟨hfront, hcs⟩ := noCloser_cons.1 h
    rw [List.flatMap_cons]
    refine noCloser_append.2 ⟨?_, ih hcs, ?_⟩
    · rcases byteChars_cases c with hone | ⟨-, hmany⟩
      · rw [hone]
        exact noCloser_cons.2 ⟨nofun, noCloser_nil⟩
      · exact noCloser_of_notMem fun hstar => absurd (hmany _ hstar) (by decide)
    · rintro ⟨hlast, hhead⟩
      have hstar := eq_of_mem_byteChars (by decide) (List.mem_of_getLast? hlast)
      exact hfront ⟨hstar.symm, head?_flatMap_byteChars (by decide) hhead⟩

/-- Written as a page and read by a scan with these options, the text does not contain `*/`. -/
def ReadInert (options : Options) (s : String) : Prop :=
  ∀ codec cs, options.codecs.find? options.charset = some codec →
    codec.decode s.toUTF8.toList = .ok cs → NoCloser cs

theorem noCloser_of_decode {charset : Charset} {s : String} (h : NoCloser s.toList)
    (hnul : charset = .utf16le → Char.ofNat 0 ∉ s.toList) {cs : List Char}
    (hread : charset.decode s.toUTF8.toList = .ok cs) : NoCloser cs := by
  cases charset with
  | utf8 =>
    rw [decode_utf8] at hread
    cases hread
    exact h
  | utf8Signed => exact h.of_part (suffix_of_signed hread).isInfix
  | latin1 =>
    rw [decode_latin1] at hread
    cases hread
    exact noCloser_byteChars h
  | ascii =>
    rw [decode_ascii hread]
    exact noCloser_byteChars h
  | utf16le =>
    apply noCloser_of_notMem
    exact star_notMem_decodeUtf16 (zero_notMem_toUTF8 (hnul rfl)) hread

theorem readInert_of_noCloser {options : Options} {charset : Charset}
    (hname : Charset.ofName? options.charset = some charset) {s : String} (h : NoCloser s.toList)
    (hnul : charset = .utf16le → Char.ofNat 0 ∉ s.toList) : ReadInert options s := by
  intro codec cs hcodec hread
  rw [Codecs.find?, hname] at hcodec
  cases hcodec
  change (charset.decode s.toUTF8.toList).mapError CodecError.bytes = .ok cs at hread
  cases hdecode : charset.decode s.toUTF8.toList with
  | error e =>
    rw [hdecode] at hread
    cases hread
  | ok cs' =>
    rw [hdecode] at hread
    cases hread
    exact noCloser_of_decode h hnul hdecode

theorem eq_nil_of_commentsIn {options : Options} {s : String} (h : ReadInert options s)
    {comments : List Comment} (hscan : commentsIn options s.toUTF8 = .ok comments) :
    comments = [] := by
  unfold commentsIn at hscan
  split at hscan
  · cases hscan
  · next codec hcodec =>
    unfold Codec.readText at hscan
    cases hdecode : codec.decode s.toUTF8.toList with
    | error e =>
      rw [hdecode] at hscan
      cases hscan
    | ok cs =>
      rw [hdecode] at hscan
      cases hscan
      apply Comment.extract_of_noCloser
      rw [Text.textOf, String.toList_ofList]
      exact (h codec cs hcodec hdecode).normalizeNewlines

/-- Whatever a scan of the second tree finds in a file, it finds there in the first one. The scan may
start in any folder, leave out any files, and complete its reads in any order. -/
def AddsNoComments (options : Options) (t t' : Tree) : Prop :=
  ∀ here, t.entry? here = some .folder → ∀ schedule accepts source found,
    (scanAccepted schedule accepts options t' here source).result = .ok found →
      ∀ f ∈ found, f.comments = [] ∨ scanFile options t here f.file = .ok f.comments

theorem scanFile_of_filesFrom {options : Options} {t t' : Tree} (ht : t.WellFormed)
    (h : t.FilesFrom (fun bytes => ∃ s, ReadInert options s ∧ bytes = s.toUTF8) t')
    {here : List String} (hhere : t.entry? here = some .folder) {file : String}
    {comments : List Comment} (hscan : scanFile options t' here file = .ok comments) :
    comments = [] ∨ scanFile options t here file = .ok comments := by
  have hnames : ∀ n ∈ here, IsName n := fun n hn =>
    (Tree.isEntryName_of_mem ht hhere n hn).toIsName
  have hrooted := rooted_outputFolder hnames file
  unfold scanFile at hscan ⊢
  split at hscan
  · cases hscan
  · next hnul =>
    rw [if_neg hnul]
    split at hscan
    · cases hscan
    · next bytes hread =>
      obtain ⟨place, hplace, hfile⟩ := Tree.exists_of_read hread
      rcases h place bytes hfile with hold | ⟨s, hs, rfl⟩
      · -- the path is without double dots, so its names are the place
        obtain ⟨-, -, hcollapse⟩ := (Tree.locate_ok_iff hrooted).1 hplace
        rw [collapse_of_no_dots (dots_notMem_outputFolder here file)] at hcollapse
        have hpath : (Path.ofText file).resolve here = ⟨"/", place⟩ := by
          rw [hcollapse]
          rfl
        have hread' : t.read here ((Path.ofText file).resolve here) = .ok bytes := by
          rw [hpath]
          exact Tree.read_of_file (Tree.locate_self ht hold) hold
        rw [hread']
        exact Or.inr hscan
      · exact Or.inl (eq_nil_of_commentsIn hs hscan)

theorem addsNoComments_of_filesFrom {options : Options} {t t' : Tree} (ht : t.WellFormed)
    (h : t.FilesFrom (fun bytes => ∃ s, ReadInert options s ∧ bytes = s.toUTF8) t') :
    AddsNoComments options t t' :=
  fun _ hhere _ _ _ _ hresult f hf =>
    scanFile_of_filesFrom ht h hhere (scanFile_of_mem_scan hresult f hf)

/-! ## The pages of a model -/

/-- The model of source texts, each with its path. -/
def docsOf (mode : Comment.Mode) (limit : Limit) (sources : List (String × String))
    (folder : String) : Docs :=
  (State.addFiles limit {} (sources.map fun s => ⟨s.1, Comment.extract mode s.2⟩)).docs folder

theorem calm_docsOf (mode : Comment.Mode) (limit : Limit) {sources : List (String × String)}
    (hpaths : ∀ s ∈ sources, ∀ n ∈ (splitSlashes s.1).dropLast, '*' ∉ n.toList) (folder : String) :
    Calm (docsOf mode limit sources folder) := by
  have hrun : docsOf mode limit sources folder =
      (State.afterCalls limit [sources.map fun s => ⟨s.1, Comment.extract mode s.2⟩]).docs folder :=
    rfl
  rw [hrun]
  refine ⟨fun c hc => inert_of_mem_classes ?_ hc, fun c hc => ?_⟩
  · intro f hf comment hcomment
    rw [List.flatten_singleton] at hf
    obtain ⟨s, -, rfl⟩ := List.mem_map.1 hf
    exact Comment.inert_of_mem_extract hcomment
  · obtain ⟨f, hf, hfile⟩ := exists_file_of_mem hc
    rw [List.flatten_singleton] at hf
    obtain ⟨s, hs, rfl⟩ := List.mem_map.1 hf
    rw [hfile]
    exact hpaths s hs

/-- Texts without comments may be left out. -/
theorem docsOf_filter {mode : Comment.Mode} {keep : String × String → Bool}
    {texts : List (String × String)}
    (h : ∀ s ∈ texts, keep s = false → Comment.extract mode s.2 = []) (limit : Limit)
    (folder : String) :
    docsOf mode limit (texts.filter keep) folder = docsOf mode limit texts folder := by
  have hstates : ∀ state : State,
      State.addFiles limit state
          ((texts.filter keep).map fun s => ⟨s.1, Comment.extract mode s.2⟩) =
        State.addFiles limit state (texts.map fun s => ⟨s.1, Comment.extract mode s.2⟩) := by
    induction texts with
    | nil => exact fun _ => rfl
    | cons s texts ih =>
      obtain ⟨hs, htexts⟩ := List.forall_mem_cons.1 h
      intro state
      cases hkeep : keep s with
      | false =>
        rw [List.filter_cons_of_neg (by rw [hkeep]; decide), ih htexts, List.map_cons, hs hkeep]
        rfl
      | true =>
        rw [List.filter_cons_of_pos hkeep]
        exact ih htexts _
  unfold docsOf
  rw [hstates]

/-- **Inert pages.** Let no folder in the paths of the sources and no folder of the current one have
a star in its name, and let the word for a missing type not contain `*/`. Then no page of a class
and no navigation list contains `*/`, whatever the sources say. So no comment is found in them, and
a later run whose texts include them gives the same model as without them. Writing pages, in any
order and however it ends, or the index page, adds no comments to a later scan of the tree in whose
encoding they are read without `*/`. Of the encodings that are written out this holds in all for
pages that do not contain `*/`; only in UTF-16, which takes two bytes for one character, must they
be without null characters. -/
theorem pages_inert (mode : Comment.Mode) (limit : Limit) (sources : List (String × String))
    (folder : String) (style : Style) (hmissing : NoCloser style.missing.toList)
    (hpaths : ∀ s ∈ sources, ∀ n ∈ (splitSlashes s.1).dropLast, '*' ∉ n.toList)
    (hcwd : ∀ n ∈ style.cwd, '*' ∉ n.toList) :
    let docs := docsOf mode limit sources folder
    let nav := renderNav style.cwd docs "" ""
    let pages := nav :: docs.classes.values.map (renderClass style docs)
    (∀ page ∈ pages, NoCloser page.toList ∧ ∀ mode', Comment.extract mode' page = []) ∧
    (∀ mode' limit' texts folder',
      docsOf mode' limit' (texts.filter fun s => s.2 ∉ pages) folder' =
        docsOf mode' limit' texts folder') ∧
    (∀ (options : Options) (t : Tree), t.WellFormed → t.entry? style.cwd = some .folder →
      (∀ order destination workers,
        (∀ c ∈ order, c ∈ docs.classes.values ∧ ReadInert options (renderClass style docs c)) →
        AddsNoComments options t (renderIn order style docs destination workers t).1) ∧
      ∀ destination fileName title, ReadInert options (indexPage title nav) →
        AddsNoComments options t (writeIndex style docs destination fileName title t).1) ∧
    ∀ (options : Options) charset, Charset.ofName? options.charset = some charset →
      (∀ page ∈ pages, (charset = .utf16le → Char.ofNat 0 ∉ page.toList) →
        ReadInert options page) ∧
      ∀ title, NoCloser title.toList →
        (charset = .utf16le → Char.ofNat 0 ∉ (indexPage title nav).toList) →
        ReadInert options (indexPage title nav) := by
  intro docs nav pages
  have hcalm : Calm docs := calm_docsOf mode limit hpaths folder
  have hinert : ∀ page ∈ pages, NoCloser page.toList := by
    refine List.forall_mem_cons.2 ⟨(hcalm.framed_renderNav hcwd).noCloser, fun page hpage => ?_⟩
    obtain ⟨c, hc, rfl⟩ := List.mem_map.1 hpage
    exact hcalm.noCloser_renderClass hcwd hmissing hc
  refine ⟨fun page hpage => ⟨hinert page hpage, fun mode' => ?_⟩, ?_, ?_, ?_⟩
  · exact Comment.extract_of_noCloser mode' (hinert page hpage)
  · intro mode' limit' texts folder'
    apply docsOf_filter
    intro s _ hleft
    have hpage : s.2 ∈ pages := by
      rwa [decide_eq_false_iff_not, Decidable.not_not] at hleft
    exact Comment.extract_of_noCloser mode' (hinert s.2 hpage)
  · intro options t ht hfolder
    have hnames : ∀ n ∈ style.cwd, IsName n := fun n hn =>
      (Tree.isEntryName_of_mem ht hfolder n hn).toIsName
    refine ⟨fun order destination workers horder => ?_, fun destination fileName title htitle => ?_⟩
    · apply addsNoComments_of_filesFrom ht
      exact renderIn_filesFrom hnames (fun c hc => ⟨_, (horder c hc).2, rfl⟩) destination workers t
    · apply addsNoComments_of_filesFrom ht
      exact writeIndex_filesFrom hnames ⟨_, htitle, rfl⟩ destination fileName t
  · intro options charset hname
    refine ⟨fun page hpage => ?_, fun title htitle => ?_⟩
    · exact readInert_of_noCloser hname (hinert page hpage)
    · exact readInert_of_noCloser hname (hcalm.noCloser_indexPage hcwd htitle)

/-- A class whose name ends with a star, and a slash that a space keeps from another one. -/
def starText : String := "/** @class Ant*\n * either * / or */"

/-- A folder with this text as its only file. -/
def starTree : Tree where
  entries := [(["src"], .folder), (["src", "a.js"], .file (.ok starText.toUTF8))]

/-- Its page is written below the folder that it comes from. -/
theorem star_page_inert :
    let docs := docsOf .doc none [("src/a.js", starText)] "src"
    let style : Style := { cwd := [] }
    docs.classes.keys = ["Ant*"] ∧
    (∀ c ∈ docs.classes.values, Comment.extract .any (renderClass style docs c) = []) ∧
    AddsNoComments {} starTree
      (renderIn docs.classes.values style docs "src/docs" none starTree).1 := by
  intro docs style
  have hmissing : NoCloser style.missing.toList := by decide
  have hpaths : ∀ s ∈ [("src/a.js", starText)], ∀ n ∈ (splitSlashes s.1).dropLast,
      '*' ∉ n.toList := by decide +kernel
  have hcwd : ∀ n ∈ style.cwd, '*' ∉ n.toList := List.forall_mem_nil _
  have ht : starTree.WellFormed := by decide +kernel
  have hname : Charset.ofName? ({} : Options).charset = some .utf8 := by decide
  obtain ⟨hpages, -, hwritten, hread⟩ :=
    pages_inert .doc none [("src/a.js", starText)] "src" style hmissing hpaths hcwd
  have hmem : ∀ c ∈ docs.classes.values, renderClass style docs c ∈
      renderNav style.cwd docs "" "" :: docs.classes.values.map (renderClass style docs) :=
    fun c hc => List.mem_cons_of_mem _ (List.mem_map_of_mem hc)
  refine ⟨by decide +kernel, fun c hc => (hpages _ (hmem c hc)).2 .any, ?_⟩
  refine (hwritten {} starTree ht rfl).1 _ _ _ fun c hc => ⟨hc, ?_⟩
  exact (hread {} .utf8 hname).1 _ (hmem c hc) nofun

/-- A comment in which null characters keep another comment apart. -/
def wideText : String :=
  "/** /\x00*\x00*\x00 \x00@\x00c\x00l\x00a\x00s\x00s\x00 \x00B\x00 \x00*\x00/\x00x\n@class Ab */"

/-- A folder with this text as its only file, written in UTF-16. -/
def wideTree : Tree where
  entries := [(["src"], .folder), (["src", "wide.js"],
    .file (.ok (wideText.toList.flatMap fun c => [UInt8.ofNat c.toNat, 0]).toByteArray))]

/-- The page of its class contains no `*/`. The next scan in UTF-16 takes each null character for
the upper half of the one before it, and finds a comment. -/
theorem wide_page_adds_comment :
    let options : Options := { charset := "utf-16-le" }
    let docs := docsOf .doc none [("src/wide.js", wideText)] "src"
    let style : Style := { cwd := [] }
    let written := (renderIn docs.classes.values style docs "src/docs" none wideTree).1
    scanFile options wideTree [] "src/wide.js" = .ok (Comment.extract .doc wideText) ∧
    (∀ c ∈ docs.classes.values, NoCloser (renderClass style docs c).toList) ∧
    (∃ found, (scanAccepted List.finRange (fun _ => true) options written [] "src").result =
        .ok found ∧
      ∃ f ∈ found, f.file = "src/docs/Ab.md" ∧
        f.comments.map Comment.source = ["/** @class B */"]) ∧
    ¬ AddsNoComments options wideTree written := by
  intro options docs style written
  have hworkers : ∀ n ∈ options.workers, 0 < n := nofun
  have hpaths : (written.filesBelow ["src"]).map
      (fun names => ((Path.ofText "src").below names).text) =
        ["src/docs/Ab.md", "src/wide.js"] := by decide +kernel
  have hplace : written.locate [] (Path.ofText "src") = .ok ["src"] := by decide +kernel
  have hfolder : written.entry? ["src"] = some .folder := by decide +kernel
  have hscan := scanAccepted_of_sorted hworkers hplace hfolder hpaths (by decide)
  have hresult : (readFiles (scanFile options written []) ["src/docs/Ab.md", "src/wide.js"]
      (List.finRange 2)).result.toOption.map
        (List.map fun f => (f.file, f.comments.map Comment.source)) =
      some [("src/docs/Ab.md", ["/** @class B */"]), ("src/wide.js", [wideText])] := by
    decide +kernel
  obtain ⟨found, hfound, hpages⟩ := Option.map_eq_some_iff.1 hresult
  have hrun : (scanAccepted List.finRange (fun _ => true) options written [] "src").result =
      .ok found := by
    rw [hscan]
    exact eq_ok_of_toOption hfound
  obtain ⟨f, hf, hpage⟩ : ∃ f ∈ found, (f.file, f.comments.map Comment.source) =
      ("src/docs/Ab.md", ["/** @class B */"]) := by
    rw [← List.mem_map, hpages]
    exact List.mem_cons_self
  obtain ⟨hfile, hcomments⟩ := Prod.mk.inj hpage
  refine ⟨by decide +kernel, by decide +kernel, ⟨found, hrun, f, hf, hfile, hcomments⟩, ?_⟩
  intro hnone
  rcases hnone [] rfl _ _ _ found hrun f hf with hempty | hthere
  · rw [hempty] at hcomments
    cases hcomments
  · -- there was no such page before
    have hmissing : (scanFile options wideTree [] "src/docs/Ab.md").isOk = false := by
      decide +kernel
    rw [hfile] at hthere
    rw [hthere] at hmissing
    cases hmissing

end Page

end ApiDoc
