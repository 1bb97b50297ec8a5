import RouteDocs.Html.PlainHighlighter
import RouteDocs.Proofs.Letter
import RouteDocs.Proofs.Preparation
import RouteDocs.Proofs.Session.Agreement

/-!
# Names of modules

The path of a module in a library is cut at its last library directory: what
stands before the directory, and the name of the module, which is what stands
between the directory and the file ending. The name is found wherever something
stands before the directory; a library directory at the very start of the path is
overlooked, and the path is then its own name.

Results:
* `belowLibrary?_of_lacks`: no name without a library directory.
* `belowLibrary?_of_last`: the name below the last one.
* `ofPath_of_cut`: the name of a path that is cut at its last library directory.
* `moduleId_of_cut`: the identifier that a document on such a path has, whatever the directory.
-/
namespace RouteDocs.ModuleName

/-! ## Library directories -/

/-- Two texts agree without regard to case. -/
def SameLetters (s t : List Char) : Prop :=
  s.map Text.foldCase = t.map Text.foldCase

instance (s t : List Char) : Decidable (SameLetters s t) :=
  inferInstanceAs (Decidable (s.map Text.foldCase = t.map Text.foldCase))

/-- A library directory with the slashes around it. -/
def library : List Char := "/lib/".toList

def moduleEnding : List Char := ".pm".toList

/-- A library directory starts nowhere in a text. -/
def LacksLibrary (s : List Char) : Prop :=
  ∀ u l v, s = u ++ l ++ v → ¬SameLetters l library

/-- A path cut at its last library directory: what stands before that directory, and the name of
the module that stands in it. -/
structure CutAtLibrary (path before name : List Char) : Prop where
  parts : ∃ lib ending, path = before ++ (lib ++ (name ++ ending)) ∧
    SameLetters lib library ∧ SameLetters ending moduleEnding
  named : name ≠ []
  oneLine : '\n' ∉ path
  last : ∀ u l v, path = u ++ l ++ v → SameLetters l library → u.length ≤ before.length

theorem SameLetters.length_eq {s t : List Char} (h : SameLetters s t) : s.length = t.length := by
  rw [← List.length_map Text.foldCase, h, List.length_map]

theorem dropFolded?_append {l literal : List Char} (h : SameLetters l literal) (rest : List Char) :
    Text.dropFolded? literal (l ++ rest) = some rest :=
  Text.dropFolded?_eq_some_iff.2 ⟨l, rfl, h⟩

theorem beforeEnding?_append {name ending : List Char} (hname : name ≠ [])
    (hending : SameLetters ending moduleEnding) :
    beforeEnding? (name ++ ending) = some name := by
  have hlength : (name ++ ending).length - 3 = name.length := by
    rw [List.length_append, hending.length_eq]
    exact Nat.add_sub_cancel _ _
  have hfound : Text.dropFolded? ['.', 'p', 'm'] ending = some [] := by
    rw [← List.append_nil ending]
    exact dropFolded?_append hending []
  rw [beforeEnding?]
  simp only [hlength, List.take_left, List.drop_left, hfound, List.isEmpty_eq_false_iff.2 hname]
  rfl

/-! ## The last library directory -/

theorem LacksLibrary.tail {c : Char} {s : List Char} (h : LacksLibrary (c :: s)) :
    LacksLibrary s :=
  fun u l v hs => h (c :: u) l v (by rw [hs]; rfl)

theorem LacksLibrary.dropFolded? {s : List Char} (h : LacksLibrary s) :
    Text.dropFolded? library s = none := by
  cases hdrop : Text.dropFolded? library s with
  | none => rfl
  | some rest =>
    obtain ⟨l, hs, hl⟩ := Text.dropFolded?_eq_some_iff.1 hdrop
    exact absurd hl (h [] l rest hs)

theorem belowLibrary?_of_lacks {s : List Char} (h : LacksLibrary s) (inside : Bool) :
    belowLibrary? inside s = none := by
  induction s generalizing inside with
  | nil => rfl
  | cons c s ih =>
    have hhere : Text.dropFolded? "/lib/".toList (c :: s) = none := h.dropFolded?
    rw [belowLibrary?, ih h.tail, hhere]
    cases inside <;> rfl

/-- The name below a library directory after which no other one starts; it is overlooked where
nothing stands before it. -/
theorem belowLibrary?_of_last {before lib rest name : List Char} (hlib : SameLetters lib library)
    (hrest : beforeEnding? rest = some name)
    (hlast : ∀ u l v, before ++ (lib ++ rest) = u ++ l ++ v → SameLetters l library →
      u.length ≤ before.length) (inside : Bool) :
    belowLibrary? inside (before ++ (lib ++ rest)) =
      if inside = false ∧ before = [] then none else some name := by
  induction before generalizing inside with
  | nil =>
    obtain ⟨c, lib', rfl⟩ : ∃ c lib', lib = c :: lib' :=
      List.exists_cons_of_length_eq_add_one hlib.length_eq
    have hlater : LacksLibrary (lib' ++ rest) := by
      intro u l v hs hl
      have hle := hlast (c :: u) l v (by rw [List.nil_append, List.cons_append, hs]; rfl) hl
      cases hle
    have hhere : Text.dropFolded? "/lib/".toList (c :: (lib' ++ rest)) = some rest :=
      dropFolded?_append hlib rest
    rw [List.nil_append, List.cons_append, belowLibrary?, belowLibrary?_of_lacks hlater,
      Option.none_or, hhere, Option.bind_some, hrest]
    cases inside <;> rfl
  | cons c before ih =>
    have hbelow := ih (fun u l v hs hl => by
      have hle := hlast (c :: u) l v (by rw [List.cons_append, hs]; rfl) hl
      exact Nat.le_of_succ_le_succ hle) true
    rw [List.cons_append, belowLibrary?, hbelow]
    simp

/-! ## Names and identifiers -/

theorem ofPath_of_cut {path before name : String}
    (h : CutAtLibrary path.toList before.toList name.toList) :
    ofPath path = if before = "" then path else name := by
  obtain ⟨lib, ending, hpath, hlib, hending⟩ := h.parts
  have hlast : path.toList.getLast? ≠ some '\n' :=
    fun hend => h.oneLine (List.mem_of_getLast? hend)
  have hline : path.toList.contains '\n' = false := by
    rw [List.contains_eq_mem]
    exact decide_eq_false h.oneLine
  have hbelow := belowLibrary?_of_last hlib (beforeEnding?_append h.named hending)
    (hpath ▸ h.last) false
  rw [← hpath] at hbelow
  rw [ofPath]
  simp only [if_neg hlast, hline, hbelow, String.toList_eq_nil_iff]
  by_cases hbefore : before = "" <;> simp [hbefore]

/-- Whether a library directory starts later in a path is seen from the texts as long as one that
start there. -/
theorem last_of_windows {path before : List Char}
    (h : ∀ k < path.length + 1, SameLetters ((path.drop k).take library.length) library →
      k ≤ before.length) :
    ∀ u l v, path = u ++ l ++ v → SameLetters l library → u.length ≤ before.length := by
  intro u l v hpath hl
  have hwindow : (path.drop u.length).take library.length = l := by
    rw [hpath, List.append_assoc, List.drop_left, ← hl.length_eq, List.take_left]
  refine h u.length ?_ (hwindow.symm ▸ hl)
  rw [hpath, List.length_append, List.length_append]
  omega

end ModuleName
namespace Document

theorem moduleId_of_unused [Html.Highlighter] {c : Config} {p : Page} {d : Document}
    {path : String} (hd : ofPage c (some path) [] p = .ok d) :
    ∃ d', moduleId d =
      .ok (Identifier.normalize c.fallbackPrefix (ModuleName.ofPath path)) d' := by
  obtain ⟨hname, hids, hnone⟩ : d.moduleName = ModuleName.ofPath path ∧
      d.ids = Identifiers.ofSeed [] c.fallbackPrefix ∧ d.madeModuleId = none := by
    obtain ⟨w, -, rfl⟩ := ofPage_ok_iff.1 hd
    exact ⟨rfl, rfl, rfl⟩
  have hid : d.identified.1 = Identifier.normalize c.fallbackPrefix (ModuleName.ofPath path) := by
    rw [(identified_of_none hnone).1, hname, hids]
    rfl
  exact ⟨d.identified.2, by rw [moduleId_apply, hid]⟩

/-- The identifier of a module in a library, where none is in use, is that of its path below the
last library directory, whatever stands before the directory. Where nothing stands there, it is
that of the whole path. -/
theorem moduleId_of_cut [Html.Highlighter] {c : Config} {p : Page} {d : Document}
    {path before name : String} (hd : ofPage c (some path) [] p = .ok d)
    (hcut : ModuleName.CutAtLibrary path.toList before.toList name.toList) :
    ∃ d', moduleId d =
      .ok (Identifier.normalize c.fallbackPrefix (if before = "" then path else name)) d' := by
  rw [← ModuleName.ofPath_of_cut hcut]
  exact moduleId_of_unused hd

/-- A module in a library within another one. -/
theorem moduleId_of_cut_of_two_libraries :
    ∃ d d', ofPage Config.default (some "/lib/shop/Lib/Shop/Tags.PM") []
        (Page.ofElement "Document" [] []) = .ok d ∧
      moduleId d = .ok "shop-tags" d' := by
  have hcut : ModuleName.CutAtLibrary "/lib/shop/Lib/Shop/Tags.PM".toList "/lib/shop".toList
      "Shop/Tags".toList :=
    ⟨⟨"/Lib/".toList, ".PM".toList, by decide, by decide, by decide⟩, by decide, by decide,
      ModuleName.last_of_windows (by decide)⟩
  obtain ⟨d, hd⟩ : ∃ d, ofPage Config.default (some "/lib/shop/Lib/Shop/Tags.PM") []
      (Page.ofElement "Document" [] []) = .ok d := ⟨_, rfl⟩
  obtain ⟨d', hid⟩ := moduleId_of_cut hd hcut
  have hshop : Identifier.normalize Config.default.fallbackPrefix "Shop/Tags" = "shop-tags" := by
    decide
  refine ⟨d, d', hd, ?_⟩
  rw [hid, if_neg (by decide), hshop]

/-- A library directory at the very start of the path is overlooked. -/
theorem moduleId_of_leading_library :
    ModuleName.CutAtLibrary "/lib/Foo.pm".toList "".toList "Foo".toList ∧
      ∃ d d', ofPage Config.default (some "/lib/Foo.pm") []
          (Page.ofElement "Document" [] []) = .ok d ∧
        moduleId d = .ok "lib-foo-pm" d' ∧
        Identifier.normalize Config.default.fallbackPrefix "Foo" = "foo" := by
  have hcut : ModuleName.CutAtLibrary "/lib/Foo.pm".toList "".toList "Foo".toList :=
    ⟨⟨"/lib/".toList, ".pm".toList, by decide, by decide, by decide⟩, by decide, by decide,
      ModuleName.last_of_windows (by decide)⟩
  obtain ⟨d, hd⟩ : ∃ d, ofPage Config.default (some "/lib/Foo.pm") []
      (Page.ofElement "Document" [] []) = .ok d := ⟨_, rfl⟩
  obtain ⟨d', hid⟩ := moduleId_of_unused hd
  have hwhole : Identifier.normalize Config.default.fallbackPrefix
      (ModuleName.ofPath "/lib/Foo.pm") = "lib-foo-pm" := by decide
  rw [hwhole] at hid
  exact ⟨hcut, d, d', hd, hid, by decide⟩

end RouteDocs.Document
