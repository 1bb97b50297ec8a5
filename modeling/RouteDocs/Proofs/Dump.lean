import RouteDocs.CommandLine.Run
import RouteDocs.Proofs.Projection
import RouteDocs.Proofs.TreeFile

/-!
# Documents that are prepared again

The tree of a document is one that its own preparation leaves as it is. A dump
writes this tree, and since the tree can be stored, the dump is read back as the
tree. So a dump of what was dumped is the same text.

Results:
* `every_tree_ofPage`: what all elements of a page pass, all of the document's tree pass.
* `storable_tree_ofPage`: the tree of a document can be stored if that of its page can be.
* `run_ok_iff`, `dump_ok_iff`: what a run and a dump that end well have done.
* `run_dump_again`: a dump of what was dumped is the same text.
* `preparation_is_projection`: a document's tree prepared again, and what was dumped dumped again.
-/
namespace RouteDocs

/-! ## What can be stored -/

namespace Node

theorem isTooLong_digit {n : ℤ} (hn : n.natAbs < 10) : Json.isTooLong n = false := by
  have hpow : 10 ^ 1 ≤ 10 ^ (if n < 0 then 4299 else 4300) :=
    Nat.pow_le_pow_right (by decide) (by split <;> decide)
  rw [Json.isTooLong, decide_eq_false_iff_not, Nat.pow_eq]
  omega

theorem storable_newListAttributes (name : String) : storable name newListAttributes = true := by
  refine Value.isStorable_mapping.2 ⟨by decide, fun m hm => ?_⟩
  rcases List.mem_cons.1 hm with rfl | hm
  · rw [Value.isStorable, isTooLong_digit (by decide)]
    rfl
  · rw [List.mem_singleton.1 hm]
    rfl

theorem storable_scaffold (kind : String) (withHeading : Bool) :
    ∀ n ∈ Draft.scaffold kind withHeading, n.every storable = true := by
  intro n hn
  rcases List.mem_append.1 hn with hn | hn
  · split at hn
    · rw [List.mem_singleton.1 hn]
      rfl
    · cases hn
  · rw [List.mem_singleton.1 hn]
    exact every_element.2 ⟨storable_newListAttributes _, rfl⟩

/-- A class can be stored. -/
theorem keepsClasses_storable : Styling.KeepsClasses storable := by
  intro name as c as' has hput
  have hclass : (Value.mapping [("class", .text c)]).isStorable = true := rfl
  unfold Styling.putClass? at hput
  split at hput
  · cases hput
    exact Value.isStorable_put has _ hclass
  · rename_i html hhtml
    cases hput
    have hmember := (Value.isStorable_mapping.1 has).2 _ (Entries.mem_of_get? hhtml)
    exact Value.isStorable_put has _ (Value.isStorable_put hmember "class" rfl)
  · cases hput

end Node

namespace Document

/-- What all elements of a page pass, all elements of a document made of it pass, if the elements
that a run makes do, and if lists pass with a class too. -/
theorem every_tree_ofPage [Html.Highlighter] {test : String → Attributes → Bool}
    (hnew : ∀ kind withHeading, ∀ n ∈ Draft.scaffold kind withHeading, n.every test = true)
    (hclass : Styling.KeepsClasses test) {c : Config} {path : Option String} {seed : List String}
    {name : String} {as : Attributes} {cs : List Node} {d : Document}
    (hall : (Node.element name as cs).every test = true)
    (h : ofPage c path seed (Page.ofElement name as cs) = .ok d) : d.tree.every test = true := by
  obtain ⟨w', hprepare, rfl⟩ := ofPage_ok_iff.1 h
  obtain ⟨-, m, w, hrun, -, rfl⟩ := prepare_ok_iff.1 hprepare
  obtain ⟨has, hcs⟩ := Node.every_element.1 hall
  obtain ⟨hname, hattributes⟩ := Directive.root_run hrun
  have hnodes : Node.everyAll test w.draft.page.nodes = true :=
    Node.everyAll_iff.2 <| Directive.forall_run hnew
      (fun _ _ _ hn hm => DefinitionList.every_mergeList hn hm) (Node.everyAll_iff.1 hcs) hrun
  show (finished c w).draft.page.toNode.every test = true
  rw [toNode_finished, hname, hattributes]
  refine Node.every_element.2 ⟨has, ?_⟩
  split
  · exact Styling.everyAll_styleNodes_of_keeps hclass _ none _ hnodes
  · exact hnodes

/-- The tree of a document can be stored if that of its page can be. -/
theorem storable_tree_ofPage [Html.Highlighter] {c : Config} {path : Option String}
    {seed : List String} {name : String} {as : Attributes} {cs : List Node} {d : Document}
    (hall : (Node.element name as cs).every Node.storable = true)
    (h : ofPage c path seed (Page.ofElement name as cs) = .ok d) :
    d.tree.every Node.storable = true :=
  every_tree_ofPage Node.storable_scaffold Node.keepsClasses_storable hall h

theorem tree_eq_element (d : Document) :
    d.tree = .element d.draft.page.name d.draft.page.attributes d.draft.page.nodes :=
  rfl

end Document

/-! ## Commands -/

namespace CommandLine

section
variable {files : Files} {c : Config} {log log' : List Notice} {path out : String}

theorem ofExcept_ok_iff {α : Type} {x : Except Fault α} {a : α} :
    Job.ofExcept x log = .ok a log' ↔ x = .ok a ∧ log' = log := by
  cases x with
  | error f => exact iff_of_false nofun nofun
  | ok b =>
    constructor
    · intro h
      cases h
      exact ⟨rfl, rfl⟩
    · rintro ⟨h, rfl⟩
      cases h
      rfl

theorem prepare_ok_iff [Html.Highlighter] {seed : List String} {module : String} {p : Page}
    {d : Document} :
    Job.prepare c module seed p log = .ok d log' ↔
      Document.ofPage c (some module) seed p = .ok d ∧ log' = log ++ d.log := by
  unfold Job.prepare
  cases Document.ofPage c (some module) seed p with
  | ok a =>
    constructor
    · intro h
      cases h
      exact ⟨rfl, rfl⟩
    · rintro ⟨h, rfl⟩
      cases h
      rfl
  | error f => exact iff_of_false nofun nofun

theorem readTree_ok_iff {p : Page} {module : String} :
    readTree files path log = .ok (p, module) log' ↔
      ∃ content root, files path = .file content ∧
        TreeFile.read path content = .ok (root, module) ∧ Page.ofNode? root = some p ∧ log' = log := by
  constructor
  · intro h
    rw [readTree] at h
    obtain ⟨content, log₁, hsymbols, hrest⟩ := bind_ok h
    obtain ⟨⟨root, name⟩, log₂, hread, hopen⟩ := bind_ok hrest
    obtain ⟨hcontent, rfl⟩ := ofExcept_ok_iff.1 hsymbols
    obtain ⟨hroot, rfl⟩ := ofExcept_ok_iff.1 hread
    have hfile : files path = .file content := by
      unfold treeContent at hcontent
      split at hcontent
      · rename_i symbols hfile
        cases hcontent
        exact hfile
      all_goals cases hcontent
    obtain ⟨hpage, rfl, rfl⟩ := openTree_ok_iff.1 hopen
    exact ⟨content, root, hfile, hroot, hpage, rfl⟩
  · rintro ⟨content, root, hfile, hroot, hpage, rfl⟩
    have hcontent : treeContent path (files path) = .ok content := by rw [hfile]; rfl
    rw [readTree, bind_of_ok (ofExcept_ok_iff.2 ⟨hcontent, rfl⟩),
      bind_of_ok (ofExcept_ok_iff.2 ⟨hroot, rfl⟩)]
    exact openTree_ok_iff.2 ⟨hpage, rfl, rfl⟩

/-- A dump that ends well has read a tree, made a document of it and written the document's
tree. -/
theorem dump_ok_iff [Html.Highlighter] : dump files c path log = .ok out log' ↔
    ∃ content root module p d, files path = .file content ∧
      TreeFile.read path content = .ok (root, module) ∧ Page.ofNode? root = some p ∧
      Document.ofPage c (some module) [] p = .ok d ∧ log' = log ++ d.log ∧
      out = TreeFile.write d.tree := by
  constructor
  · intro h
    rw [dump] at h
    obtain ⟨⟨p, module⟩, log₁, hread, hrest⟩ := bind_ok h
    obtain ⟨d, log₂, hprepare, hwrite⟩ := bind_ok hrest
    obtain ⟨content, root, hfile, hroot, hpage, rfl⟩ := readTree_ok_iff.1 hread
    obtain ⟨hd, rfl⟩ := prepare_ok_iff.1 hprepare
    cases hwrite
    exact ⟨content, root, module, p, d, hfile, hroot, hpage, hd, rfl, rfl⟩
  · rintro ⟨content, root, module, p, d, hfile, hroot, hpage, hd, rfl, rfl⟩
    rw [dump, bind_of_ok (readTree_ok_iff.2 ⟨content, root, hfile, hroot, hpage, rfl⟩)]
    exact bind_of_ok (prepare_ok_iff.2 ⟨hd, rfl⟩) _

theorem dump_again [Html.Highlighter] {files' : Files} {path' : String} {log₀ : List Notice}
    (h : dump files c path log = .ok out log')
    (hfile' : files' path' = .file (Text.symbols (out ++ "\n"))) :
    dump files' c path' log₀ = .ok out log₀ := by
  obtain ⟨content, root, module, p, d, hfile, hroot, hpage, hd, -, rfl⟩ := dump_ok_iff.1 h
  obtain ⟨⟨name, as, cs, rfl⟩, hall⟩ := TreeFile.storable_of_read hroot
  obtain rfl : Page.ofElement name as cs = p := Option.some.inj hpage
  have hstorable := Document.storable_tree_ofPage hall hd
  obtain ⟨q, hq, -, hagain⟩ := Document.ofPage_again hd
  obtain ⟨d', hd', htree, hlog⟩ := hagain (some path') []
  refine dump_ok_iff.2 ⟨_, d.tree, path', q, d', hfile', ?_, hq, hd', ?_, ?_⟩
  · rw [Document.tree_eq_element] at hstorable ⊢
    exact TreeFile.read_write path' hstorable (.inr rfl)
  · rw [hlog, List.append_nil]
  · rw [htree]

/-- A command that ends well has printed what its job made, and the notices. -/
theorem run_ok_iff [Html.Highlighter] {i : Invocation} {output errors : String} :
    run files i = ⟨output, errors, .exit 0⟩ ↔
      ∃ out log', job files i [] = .ok out log' ∧ output = out ++ "\n" ∧
        errors = shownNotices i.verbose log' := by
  unfold run EStateM.run
  cases job files i [] with
  | ok out log' =>
    simp only [Outcome.mk.injEq, and_true, EStateM.Result.ok.injEq]
    constructor
    · rintro ⟨rfl, rfl⟩
      exact ⟨out, log', ⟨rfl, rfl⟩, rfl, rfl⟩
    · rintro ⟨_, _, ⟨rfl, rfl⟩, rfl, rfl⟩
      exact ⟨rfl, rfl⟩
  | error f log' =>
    refine iff_of_false (fun h => ?_) nofun
    dsimp only at h
    split at h <;> cases h

theorem job_dump [Html.Highlighter] {i : Invocation} {rest : List String} (hverb : i.verb = .dump)
    (htrees : i.trees = path :: rest) :
    job files i = (readConfig files i.config >>= fun c => dump files c path) := by
  unfold job
  rw [hverb, htrees]

/-- Reading a configuration notes nothing. -/
theorem readConfig_ok {config : Option String} (h : readConfig files config log = .ok c log') :
    log' = log := by
  cases config with
  | none =>
    cases h
    rfl
  | some path =>
    rw [readConfig] at h
    obtain ⟨content, log₁, hcontent, hrest⟩ := bind_ok h
    obtain ⟨wide, log₂, hwide, hnarrow⟩ := bind_ok hrest
    obtain ⟨-, rfl⟩ := ofExcept_ok_iff.1 hcontent
    obtain ⟨-, rfl⟩ := ofExcept_ok_iff.1 hwide
    cases hconfig : wide.narrowed? with
    | none =>
      simp only [hconfig] at hnarrow
      cases hnarrow
    | some narrow =>
      simp only [hconfig] at hnarrow
      cases hnarrow
      rfl

theorem readConfig_congr {files' : Files} {config : Option String}
    (h : ∀ path, config = some path → files' path = files path) :
    readConfig files' config = readConfig files config := by
  cases config with
  | none => rfl
  | some path => rw [readConfig, readConfig, h path rfl]

/-- What a command has dumped, it dumps as it is, and notes nothing. -/
theorem run_dump_again [Html.Highlighter] {files' : Files} {i : Invocation}
    {path' output errors : String} {rest rest' : List String} (hverb : i.verb = .dump)
    (htrees : i.trees = path :: rest) (hrun : run files i = ⟨output, errors, .exit 0⟩)
    (hconfig : ∀ config, i.config = some config → files' config = files config)
    (hfile' : files' path' = .file (Text.symbols output)) :
    run files' { i with trees := path' :: rest' } = ⟨output, "", .exit 0⟩ := by
  obtain ⟨out, log', hjob, rfl, -⟩ := run_ok_iff.1 hrun
  rw [job_dump hverb htrees] at hjob
  obtain ⟨c, log₁, hread, hdump⟩ := bind_ok hjob
  obtain rfl := readConfig_ok hread
  have hjob' : job files' { i with trees := path' :: rest' } =
      (readConfig files' i.config >>= fun c => dump files' c path') := job_dump hverb rfl
  have hagain : job files' { i with trees := path' :: rest' } [] = .ok out [] := by
    rw [hjob', readConfig_congr hconfig, bind_of_ok hread]
    exact dump_again hdump hfile'
  exact run_ok_iff.2 ⟨out, [], hagain, rfl, rfl⟩

end

end CommandLine

/-! ## Documents -/

open CommandLine (Files Invocation run)

/-- Preparing is a projection. The tree of a document, read back from its nested lists, makes a
document with the same configuration: there is nothing to merge, nothing is noted and the tree stays
as it is. So what a command has dumped is dumped as it is from any file that holds it. -/
theorem preparation_is_projection [Html.Highlighter] :
    (∀ (c : Config) (path : Option String) (seed : List String) (root : Node) (p : Page)
      (d : Document), Page.ofNode? root = some p → Document.ofPage c path seed p = .ok d →
        Node.rootOfValue d.tree.toValue = .ok d.tree ∧
        ∃ q, Page.ofNode? d.tree = some q ∧
          Directive.run c.directives ⟨Draft.ofPage q, []⟩ = .ok 0 ⟨Draft.ofPage q, []⟩ ∧
          ∀ path' seed', ∃ d', Document.ofPage c path' seed' q = .ok d' ∧
            d'.tree = d.tree ∧ d'.log = []) ∧
    (∀ (files files' : Files) (i : Invocation) (path path' output errors : String)
      (rest rest' : List String), i.verb = .dump → i.trees = path :: rest →
        run files i = ⟨output, errors, .exit 0⟩ →
        (∀ config, i.config = some config → files' config = files config) →
        files' path' = .file (Text.symbols output) →
        run files' { i with trees := path' :: rest' } = ⟨output, "", .exit 0⟩) := by
  constructor
  · intro c path seed root p d hp hd
    cases root with
    | text s => cases hp
    | element name as cs =>
      obtain rfl : Page.ofElement name as cs = p := Option.some.inj hp
      exact ⟨Node.rootOfValue_toValue _ _ _, Document.ofPage_again hd⟩
  · intro files files' i path path' output errors rest rest' hverb htrees hrun hconfig hfile'
    exact CommandLine.run_dump_again hverb htrees hrun hconfig hfile'

/-- A page with a directive is prepared, and what a command dumps of it is dumped again. -/
theorem preparation_is_projection_of_one_directive :
    let cs : List Node := [.element "head3" [] [.text "GET /a"], .element "head4" [] [.text "Input"],
      .element "over-text" [("ratio", .real (.finite false 0x12000000000000 (-50)))]
        [.element "item-text" [] [.text "q"]],
      .element "head3" [] [.text "GET /b"],
      .element "for" [("target", .text "docviewer")]
        [.element "Data" [] [.text "input-from GET /a"]]]
    let root := Node.element "Document" [] cs
    let files : Files := fun path =>
      if path = "a.json" then .file (Text.symbols (TreeFile.write root ++ "\n")) else .nothing
    let i : Invocation := ⟨.dump, ["a.json"], none, none, true⟩
    (∃ p d, Page.ofNode? root = some p ∧
      Document.ofPage Config.default (some "a.json") [] p = .ok d ∧
      ∃ q d', Page.ofNode? d.tree = some q ∧ Document.ofPage Config.default none [] q = .ok d' ∧
        d'.tree = d.tree) ∧
    ∃ output errors, run files i = ⟨output, errors, .exit 0⟩ ∧
      run (fun _ => .file (Text.symbols output)) { i with trees := ["b.json"] } =
        ⟨output, "", .exit 0⟩ := by
  intro cs root files i
  obtain ⟨d, hd⟩ : ∃ d, Document.ofPage Config.default (some "a.json") []
      (Page.ofElement "Document" [] cs) = .ok d := by
    have hends : (Document.ofPage Config.default (some "a.json") []
        (Page.ofElement "Document" [] cs)).isOk = true := by decide +kernel
    cases hd : Document.ofPage Config.default (some "a.json") [] (Page.ofElement "Document" [] cs) with
    | error f =>
      rw [hd] at hends
      cases hends
    | ok d => exact ⟨d, rfl⟩
  have hall : root.every Node.storable = true := by decide +kernel
  have hfile : files "a.json" = .file (Text.symbols (TreeFile.write root ++ "\n")) := if_pos rfl
  have hdump : CommandLine.dump files Config.default "a.json" [] =
      .ok (TreeFile.write d.tree) ([] ++ d.log) :=
    CommandLine.dump_ok_iff.2 ⟨_, root, "a.json", _, d, hfile, TreeFile.read_write "a.json" hall (.inr rfl), rfl,
      hd, rfl, rfl⟩
  have hconfig : CommandLine.readConfig files i.config [] = .ok Config.default [] := rfl
  have hjob : CommandLine.job files i [] = .ok (TreeFile.write d.tree) ([] ++ d.log) := by
    rw [CommandLine.job_dump (rfl : i.verb = .dump) (rfl : i.trees = "a.json" :: []),
      bind_of_ok hconfig]
    exact hdump
  have hrun := CommandLine.run_ok_iff.2 ⟨_, _, hjob, rfl, rfl⟩
  obtain ⟨hprepared, hdumped⟩ := preparation_is_projection
  obtain ⟨-, q, hq, -, hagain⟩ := hprepared Config.default _ _ root _ d rfl hd
  obtain ⟨d', hd', htree, -⟩ := hagain none []
  refine ⟨⟨_, d, rfl, hd, q, d', hq, hd', htree⟩, _, _, hrun, ?_⟩
  exact hdumped files _ i "a.json" "b.json" _ _ [] [] rfl rfl hrun nofun rfl

end RouteDocs
