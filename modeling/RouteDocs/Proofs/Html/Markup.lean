import RouteDocs.Html.PlainHighlighter
import RouteDocs.Html.Render
import RouteDocs.Proofs.Html.Mentions
import RouteDocs.Proofs.Identifier

/-!
# Markup of texts

The page text of a text is markup: escaped text, labels and links, each with its
opening and its closing tag. It is so unless a reference has a marker word in its
path. There the label is put in first, and the link, which runs to the next
blank, ends inside of the label's opening tag.

Results:
* `linked_marker`, `linked_reference`, `linked_char`: the page text of a text, from its head on.
* `Markup.not_cut`: in markup no tag is cut short by another.
* `markup_linked`, `not_markup_linked`: where the page text is markup, and where it is none.
* `text_markup_iff`: when a text is shown as markup.
-/
namespace RouteDocs.Html

/-! ## Mentions in a text -/

def mentions (methods : List String) (s : List Char) : List (List Char) :=
  (pieces methods s).filterMap fun
    | .char _ => none
    | .reference r => some r

theorem references_eq_map_mentions (methods : List String) (s : String) :
    references methods s = (mentions methods s.toList).map String.ofList := by
  rw [references, mentions, List.map_filterMap]
  congr 1
  funext p
  cases p <;> rfl

/-- No reference in a text has a marker word in it. -/
def Unmarked (markers : List (String × String)) (methods : List String) (s : List Char) : Prop :=
  ∀ r ∈ mentions methods s, ∀ k ∈ markers, ¬ k.1.toList <:+: r

section
variable {methods : List String}

theorem mentions_nil : mentions methods [] = [] := by
  rw [mentions, pieces_nil]
  rfl

theorem mentions_char {c : Char} {rest : List Char}
    (h : reference? (methods.map String.toList) (c :: rest) = none) :
    mentions methods (c :: rest) = mentions methods rest := by
  rw [mentions, pieces_char h]
  rfl

theorem mentions_append {u t : List Char}
    (h : ∀ n < u.length, reference? (methods.map String.toList) (u.drop n ++ t) = none) :
    mentions methods (u ++ t) = mentions methods t := by
  rw [mentions, pieces_append h, List.filterMap_append, List.filterMap_map]
  exact congrArg (· ++ mentions methods t) (List.filterMap_eq_nil_iff.2 fun _ _ => rfl)

theorem mentions_reference {r rest : List Char} (hr : r ≠ [])
    (h : reference? (methods.map String.toList) (r ++ rest) = some r) :
    mentions methods (r ++ rest) = r :: mentions methods rest := by
  rw [mentions, pieces_reference hr h]
  rfl

end

/-! ## The page text from the head on -/

def linkHtml (address : String) (r : List Char) : List Char :=
  ("<a href=\"" ++ address ++ "\">" ++ String.ofList r ++ "</a>").toList

theorem linkHtml_eq (address : String) (r : List Char) :
    linkHtml address r =
      "<a href=\"".toList ++ (address.toList ++ ("\">".toList ++ (r ++ "</a>".toList))) := by
  rw [linkHtml, String.toList_append, String.toList_append, String.toList_append,
    String.toList_append, String.toList_ofList (l := r), List.append_assoc, List.append_assoc,
    List.append_assoc]

section
variable {methods : List String} {anchorPrefix : String} {target : String → String}

theorem linkReferences_nil : linkReferences methods anchorPrefix target [] = [] := by
  rw [linkReferences, pieces_nil]
  rfl

theorem linkReferences_append {u t : List Char}
    (h : ∀ n < u.length, reference? (methods.map String.toList) (u.drop n ++ t) = none) :
    linkReferences methods anchorPrefix target (u ++ t) =
      u ++ linkReferences methods anchorPrefix target t := by
  rw [linkReferences, pieces_append h, List.flatMap_append, List.flatMap_map]
  congr 1
  exact List.flatMap_singleton' u

theorem linkReferences_reference {r rest : List Char} (hr : r ≠ [])
    (h : reference? (methods.map String.toList) (r ++ rest) = some r) :
    linkReferences methods anchorPrefix target (r ++ rest) =
      linkHtml (anchorPrefix ++ target (String.ofList r)) r ++
        linkReferences methods anchorPrefix target rest := by
  rw [linkReferences, pieces_reference hr h, List.flatMap_cons, linkHtml, ← String.append_assoc]
  rfl

end

section
variable {markers : List (String × String)} {methods : List String} {anchorPrefix : String}
  {target : String → String}

/-- The page text of a text: its marker words as labels, its references as links. -/
def linked (markers : List (String × String)) (methods : List String) (anchorPrefix : String)
    (target : String → String) (s : List Char) : List Char :=
  linkReferences methods anchorPrefix target (markedHtml markers s)

theorem reference?_of_noCapital (hm : OrderlyMethods markers methods) {u : List Char}
    (hu : ∀ c ∈ u, c.isUpper = false) {n : Nat} (hn : n < u.length) (t : List Char) :
    reference? (methods.map String.toList) (u.drop n ++ t) = none :=
  reference?_drop_append hm.ne_nil (fun m hmem => apart_of_noCapital (hm.capital m hmem) hu) hn t

theorem mentions_marker (hm : OrderlyMethods markers methods) {k : String × String}
    (hk : k ∈ markers) (tail : List Char) :
    mentions methods (k.1.toList ++ tail) = mentions methods (dropColon tail) := by
  rw [mentions_append fun n hn =>
    reference?_drop_append hm.ne_nil (fun m hmem => hm.apart m hmem k hk) hn tail]
  cases tail with
  | nil => rfl
  | cons c tail =>
    by_cases hc : c = ':'
    · subst hc
      exact mentions_append (u := [':']) fun n hn => reference?_of_noCapital hm (by decide) hn tail
    · rw [dropColon, if_neg hc]

theorem linked_nil : linked markers methods anchorPrefix target [] = [] :=
  linkReferences_nil

theorem linked_marker (ho : Orderly markers) (hm : OrderlyMethods markers methods)
    {k : String × String} {tail : List Char}
    (h : markerAt? markers (k.1.toList ++ tail) = some k) :
    linked markers methods anchorPrefix target (k.1.toList ++ tail) =
      labelTemplate k.1 k.2 ++ linked markers methods anchorPrefix target (dropColon tail) := by
  have hk := (markerAt?_eq_some h).1
  have hopening := noCapital_labelOpening (ho.plainClass k hk)
  rw [linked, markedHtml_marker (ho.capital k hk).1 h, labelTemplate_eq, List.append_assoc,
    List.append_assoc, linkReferences_append fun n hn => reference?_of_noCapital hm hopening hn _,
    linkReferences_append fun n hn =>
      reference?_drop_append hm.ne_nil (fun m hmem => hm.apart m hmem k hk) hn _,
    linkReferences_append fun n hn => reference?_of_noCapital hm (by decide) hn _, linked,
    List.append_assoc, List.append_assoc]

theorem linked_char (ho : Orderly markers) (hm : OrderlyMethods markers methods) {c : Char}
    {rest : List Char} (hat : markerAt? markers (c :: rest) = none)
    (href : reference? (methods.map String.toList) (c :: rest) = none) :
    linked markers methods anchorPrefix target (c :: rest) =
      escapeChar true c ++ linked markers methods anchorPrefix target rest := by
  have hnone := reference?_markedHtml_none ho hm href
  rw [linked, markedHtml_char hat] at *
  refine linkReferences_append fun n hn => ?_
  by_cases hc : c ∈ special
  · exact reference?_of_noCapital hm (noCapital_escapeChar hc) hn _
  · rw [escapeChar_of_notMem hc] at hn hnone ⊢
    obtain rfl : n = 0 := by simpa using hn
    exact hnone

theorem linked_reference (ho : Orderly markers) (hm : OrderlyMethods markers methods)
    {r rest : List Char} (h : reference? (methods.map String.toList) (r ++ rest) = some r)
    (hr : ∀ k ∈ markers, ¬ k.1.toList <:+: r) :
    linked markers methods anchorPrefix target (r ++ rest) =
      linkHtml (anchorPrefix ++ target (String.ofList (escapeChars true r))) (escapeChars true r) ++
        linked markers methods anchorPrefix target rest := by
  obtain ⟨hrest, href⟩ := reference?_markedHtml_of_unmarked ho hm h hr
  have hne := (prefix_of_reference? hm href).1
  rw [linked, markedHtml_append fun n _ => markerAt?_of_unmarked ho hr hrest n,
    linkReferences_reference hne href, linked]

/-- A link to a reference with a marker word ends inside of the opening tag of the label. -/
theorem linked_of_marker (ho : Orderly markers) (hm : OrderlyMethods markers methods)
    {s r : List Char} (h : reference? (methods.map String.toList) s = some r)
    {k : String × String} (hk : k ∈ markers) (hin : k.1.toList <:+: r) :
    "<span</a>".toList <:+: linked markers methods anchorPrefix target s := by
  obtain ⟨before, href⟩ := reference?_markedHtml_of_marker ho hm h hk hin
  obtain ⟨hne, rest, hrest⟩ := prefix_of_reference? hm href
  rw [← hrest] at href
  have hcut : "<span</a>".toList = "<span".toList ++ "</a>".toList := by decide
  have hlink : "<span</a>".toList <:+: before ++ "<span".toList ++ "</a>".toList := by
    rw [List.append_assoc, ← hcut]
    exact List.infix_append_right
  rw [linked, ← hrest, linkReferences_reference hne href, linkHtml_eq]
  refine List.infix_append_of_infix_left (List.infix_append_of_infix_right ?_)
  exact List.infix_append_of_infix_right (List.infix_append_of_infix_right hlink)

/-- Induction along the marker words, references and other characters of a text. -/
@[elab_as_elim]
theorem linked_induction (ho : Orderly markers) (hm : OrderlyMethods markers methods)
    {motive : List Char → Prop} (nil : motive [])
    (label : ∀ k tail, k ∈ markers → markerAt? markers (k.1.toList ++ tail) = some k →
      motive (dropColon tail) → motive (k.1.toList ++ tail))
    (reference : ∀ r rest, reference? (methods.map String.toList) (r ++ rest) = some r →
      motive rest → motive (r ++ rest))
    (char : ∀ c rest, markerAt? markers (c :: rest) = none →
      reference? (methods.map String.toList) (c :: rest) = none → motive rest →
      motive (c :: rest))
    (s : List Char) : motive s :=
  match s with
  | [] => nil
  | c :: rest => by
    cases hat : markerAt? markers (c :: rest) with
    | some k =>
      obtain ⟨hmem, tail, htail⟩ := markerAt?_eq_some hat
      have hshort : (dropColon tail).length < (c :: rest).length :=
        htail ▸ length_dropColon_lt (ho.capital k hmem).1 tail
      rw [← htail] at hat ⊢
      exact label k tail hmem hat (linked_induction ho hm nil label reference char (dropColon tail))
    | none =>
      cases href : reference? (methods.map String.toList) (c :: rest) with
      | some r =>
        obtain ⟨hne, tail, htail⟩ := prefix_of_reference? hm href
        have hshort : tail.length < (c :: rest).length := by
          have hpos := List.length_pos_iff.2 hne
          rw [← htail, List.length_append]
          omega
        rw [← htail] at href ⊢
        exact reference r tail href (linked_induction ho hm nil label reference char tail)
      | none =>
        exact char c rest hat href (linked_induction ho hm nil label reference char rest)
termination_by s.length
decreasing_by
  all_goals first | assumption | exact Nat.lt_succ_self _

end

/-! ## Markup -/

/-- Page text made of escaped text, labels and links, properly nested, with the text that a reader
sees of it. -/
inductive Markup : List Char → List Char → Prop where
  | text (s : List Char) : Markup s (escapeChars true s)
  | append {s t h k : List Char} : Markup s h → Markup t k → Markup (s ++ t) (h ++ k)
  | label (cssClass : List Char) {s h : List Char} : Markup s h →
      Markup s ("<span class=\"label ".toList ++ (escapeChars true cssClass ++
        ("\">".toList ++ (h ++ "</span>".toList))))
  | link (address : List Char) {s h : List Char} : Markup s h →
      Markup s ("<a href=\"".toList ++ (escapeChars true address ++
        ("\">".toList ++ (h ++ "</a>".toList))))

/-- What may follow the character that begins a tag. -/
def tagHeads : List (List Char) :=
  ["span class=\"label ".toList, "/span>".toList, "a href=\"".toList, "/a>".toList]

/-- Every character that begins a tag has the head of a tag after it. -/
def WholeTags : List Char → Prop
  | [] => True
  | c :: rest => (c = '<' → ∃ head ∈ tagHeads, head <+: rest) ∧ WholeTags rest

instance : DecidablePred WholeTags
  | [] => inferInstanceAs (Decidable True)
  | c :: rest =>
    have := instDecidablePredListCharWholeTags rest
    inferInstanceAs (Decidable ((c = '<' → ∃ head ∈ tagHeads, head <+: rest) ∧ WholeTags rest))

theorem wholeTags_append {h k : List Char} (hh : WholeTags h) (hk : WholeTags k) :
    WholeTags (h ++ k) := by
  induction h with
  | nil => exact hk
  | cons c rest ih =>
    obtain ⟨hc, hrest⟩ := hh
    refine ⟨fun he => ?_, ih hrest⟩
    obtain ⟨head, hmem, hp⟩ := hc he
    exact ⟨head, hmem, hp.trans (List.prefix_append rest k)⟩

theorem wholeTags_of_notMem {h : List Char} (hlt : '<' ∉ h) : WholeTags h := by
  induction h with
  | nil => trivial
  | cons c rest ih =>
    rw [List.mem_cons, not_or] at hlt
    exact ⟨fun he => absurd he.symm hlt.1, ih hlt.2⟩

theorem WholeTags.of_append {h k : List Char} (h' : WholeTags (h ++ k)) : WholeTags k := by
  induction h with
  | nil => exact h'
  | cons c rest ih => exact ih h'.2

theorem wholeTags_escapeChars (s : List Char) : WholeTags (escapeChars true s) :=
  wholeTags_of_notMem (notMem_escapeChars (by decide) (by decide) s)

theorem Markup.wholeTags {s h : List Char} (hm : Markup s h) : WholeTags h := by
  induction hm with
  | text s => exact wholeTags_escapeChars s
  | append _ _ ihh ihk => exact wholeTags_append ihh ihk
  | label cssClass _ ih =>
    refine wholeTags_append (by decide) (wholeTags_append (wholeTags_escapeChars _) ?_)
    exact wholeTags_append (by decide) (wholeTags_append ih (by decide))
  | link address _ ih =>
    refine wholeTags_append (by decide) (wholeTags_append (wholeTags_escapeChars _) ?_)
    exact wholeTags_append (by decide) (wholeTags_append ih (by decide))

/-- In markup no tag is cut short by another. -/
theorem Markup.not_cut {s h : List Char} (hm : Markup s h) : ¬ "<span</a>".toList <:+: h := by
  rintro ⟨before, after, rfl⟩
  have hlit : "<span</a>".toList = '<' :: "span</a>".toList := by decide
  have hwhole := hm.wholeTags
  rw [hlit, List.append_assoc] at hwhole
  obtain ⟨head, hmem, hp⟩ := hwhole.of_append.1 rfl
  have hapart : ∀ head ∈ tagHeads,
      ¬ head <+: "span</a>".toList ∧ ¬ "span</a>".toList <+: head := by decide
  rcases List.prefix_or_prefix_of_prefix hp (List.prefix_append _ after) with h | h
  · exact (hapart head hmem).1 h
  · exact (hapart head hmem).2 h

theorem markup_labelTemplate {word cssClass : String} (hw : Capital word.toList)
    (hclass : ∀ c ∈ cssClass.toList, c.isLower = true ∨ c = '-') :
    Markup word.toList (labelTemplate word cssClass) := by
  have hword : escapeChars true word.toList = word.toList :=
    escapeChars_of_plain fun c hc => notMem_special_of_isUpper (hw.2 c hc)
  have hplain : escapeChars true cssClass.toList = cssClass.toList := by
    refine escapeChars_of_plain fun c hc hmem => ?_
    have hall : ∀ x ∈ special, x.isLower = false ∧ x ≠ '-' := by decide
    rcases hclass c hc with hlower | rfl
    · rw [(hall c hmem).1] at hlower
      cases hlower
    · exact (hall _ hmem).2 rfl
  have h := Markup.label cssClass.toList (Markup.text word.toList)
  rw [hword, hplain] at h
  rw [labelTemplate_eq, labelOpening_eq]
  simpa only [List.append_assoc] using h

theorem markup_linkHtml {address : String} (ha : ∀ c ∈ address.toList, c ∉ special)
    (r : List Char) : Markup r (linkHtml address (escapeChars true r)) := by
  have h := Markup.link address.toList (Markup.text r)
  rwa [escapeChars_of_plain ha, ← linkHtml_eq] at h

section
variable {markers : List (String × String)} {methods : List String} {anchorPrefix : String}
  {target : String → String}

theorem shownText_marker (ho : Orderly markers) {k : String × String} {tail : List Char}
    (h : markerAt? markers (k.1.toList ++ tail) = some k) :
    shownText markers (k.1.toList ++ tail) = k.1.toList ++ shownText markers (dropColon tail) := by
  have hk := (markerAt?_eq_some h).1
  rw [shownText, marked_marker (ho.capital k hk).1 h, List.flatMap_cons]
  rfl

theorem shownText_append {u t : List Char}
    (h : ∀ n < u.length, markerAt? markers (u.drop n ++ t) = none) :
    shownText markers (u ++ t) = u ++ shownText markers t := by
  rw [shownText, marked_append h, List.flatMap_append, List.flatMap_map]
  congr 1
  exact List.flatMap_singleton' u

theorem shownText_char {c : Char} {rest : List Char} (h : markerAt? markers (c :: rest) = none) :
    shownText markers (c :: rest) = [c] ++ shownText markers rest := by
  rw [shownText, marked_char h, List.flatMap_cons]
  rfl

/-- Where no reference has a marker word in it, the page text is markup of what is shown. -/
theorem markup_linked (ho : Orderly markers) (hm : OrderlyMethods markers methods)
    (ha : ∀ r, ∀ c ∈ (anchorPrefix ++ target r).toList, c ∉ special) {s : List Char}
    (hs : Unmarked markers methods s) :
    Markup (shownText markers s) (linked markers methods anchorPrefix target s) := by
  induction s using linked_induction ho hm with
  | nil =>
    rw [linked_nil, shownText, marked_nil]
    exact Markup.text []
  | label k tail hk hat ih =>
    rw [Unmarked, mentions_marker hm hk] at hs
    rw [linked_marker ho hm hat, shownText_marker ho hat]
    exact .append (markup_labelTemplate (ho.capital k hk) (ho.plainClass k hk)) (ih hs)
  | reference r rest href ih =>
    have hne := (prefix_of_reference? hm href).1
    rw [Unmarked, mentions_reference hne href, List.forall_mem_cons] at hs
    obtain ⟨hr, hrest⟩ := hs
    have hblank := (reference?_markedHtml_of_unmarked ho hm href hr).1
    rw [linked_reference ho hm href hr,
      shownText_append fun n _ => markerAt?_of_unmarked ho hr hblank n]
    exact .append (markup_linkHtml (ha _) r) (ih hrest)
  | char c rest hat href ih =>
    rw [Unmarked, mentions_char href] at hs
    rw [linked_char ho hm hat href, shownText_char hat]
    have hc : escapeChar true c = escapeChars true [c] := (List.append_nil _).symm
    rw [hc]
    exact .append (.text [c]) (ih hs)

/-- Where a reference has a marker word in it, the page text is no markup. -/
theorem not_markup_linked (ho : Orderly markers) (hm : OrderlyMethods markers methods)
    {s : List Char} (hs : ¬ Unmarked markers methods s) (t : List Char) :
    ¬ Markup t (linked markers methods anchorPrefix target s) := by
  refine fun h => h.not_cut ?_
  clear h
  induction s using linked_induction ho hm with
  | nil =>
    rw [Unmarked, mentions_nil] at hs
    exact absurd (List.forall_mem_nil _) hs
  | label k tail hk hat ih =>
    rw [Unmarked, mentions_marker hm hk] at hs
    rw [linked_marker ho hm hat]
    exact List.infix_append_of_infix_right (ih hs)
  | reference r rest href ih =>
    have hne := (prefix_of_reference? hm href).1
    by_cases hr : ∀ k ∈ markers, ¬ k.1.toList <:+: r
    · rw [Unmarked, mentions_reference hne href, List.forall_mem_cons] at hs
      rw [linked_reference ho hm href hr]
      exact List.infix_append_of_infix_right (ih fun hrest => hs ⟨hr, hrest⟩)
    · obtain ⟨k, hr⟩ := Classical.not_forall.1 hr
      obtain ⟨hk, hin⟩ := Classical.not_imp.1 hr
      rw [Classical.not_not] at hin
      exact linked_of_marker ho hm href hk hin
  | char c rest hat href ih =>
    rw [Unmarked, mentions_char href] at hs
    rw [linked_char ho hm hat href]
    exact List.infix_append_of_infix_right (ih hs)

end

/-! ## Rendered texts -/

theorem text_eq {r : Renderer} (ho : Orderly r.config.markers) (s : String) :
    r.text s = .ok (String.ofList (linked r.config.markers r.config.routeMethods
      r.config.anchorPrefix r.target s.toList)) := by
  rw [Renderer.text, markAll_escapeChars ho]
  rfl

/-- A text is shown as markup, and then of all of it but the colons after marker words, exactly if
none of its references has a marker word in it. -/
theorem text_markup_iff [Highlighter] (fallback s : String) :
    ∃ h, Renderer.text ⟨RenderConfig.default, fallback⟩ s = .ok h ∧
      ((∃ t, Markup t h.toList) ↔
        ∀ r ∈ references RenderConfig.default.routeMethods s,
          ∀ k ∈ RenderConfig.default.markers, ¬ k.1.toList <:+: r.toList) ∧
      ∀ t, Markup t h.toList →
        Markup (shownText RenderConfig.default.markers s.toList) h.toList := by
  have ho := orderly_default
  have hm := orderlyMethods_default
  have hunmarked : Unmarked RenderConfig.default.markers RenderConfig.default.routeMethods s.toList ↔
      ∀ r ∈ references RenderConfig.default.routeMethods s,
        ∀ k ∈ RenderConfig.default.markers, ¬ k.1.toList <:+: r.toList := by
    simp [references_eq_map_mentions, Unmarked]
  have haddress : ∀ r : String, ∀ c ∈ (RenderConfig.default.anchorPrefix ++
      Identifier.normalize fallback r).toList, c ∉ special := by
    intro r c hc
    rw [String.toList_append, List.mem_append] at hc
    rcases hc with hc | hc
    · revert c
      decide
    · have hall : ∀ x ∈ special, Identifier.isAllowed x = false := by decide
      intro hmem
      have := Identifier.isAllowed_of_mem_normalize hc
      rw [hall c hmem] at this
      cases this
  refine ⟨_, text_eq ho s, ?_, ?_⟩
  · rw [← hunmarked, String.toList_ofList]
    constructor
    · rintro ⟨t, ht⟩
      exact Classical.byContradiction fun hs => not_markup_linked ho hm hs t ht
    · exact fun hs => ⟨_, markup_linked ho hm haddress hs⟩
  · intro t ht
    rw [String.toList_ofList] at ht ⊢
    by_cases hs : Unmarked RenderConfig.default.markers RenderConfig.default.routeMethods s.toList
    · exact markup_linked ho hm haddress hs
    · exact absurd ht (not_markup_linked ho hm hs t)

/-- The link to a route that begins with a marker word ends inside of the label's tag. -/
theorem text_not_markup :
    (Renderer.text ⟨RenderConfig.default, "pod"⟩ "GET /TODO").toOption =
      some "<a href=\"#!/get-span\">GET /<span</a> class=\"label label-warning\">TODO</span>" ∧
    ∀ t, ¬ Markup t
      "<a href=\"#!/get-span\">GET /<span</a> class=\"label label-warning\">TODO</span>".toList := by
  refine ⟨by decide +kernel, fun t h => h.not_cut ?_⟩
  exact ⟨"<a href=\"#!/get-span\">GET /".toList,
    " class=\"label label-warning\">TODO</span>".toList, by decide⟩

end RouteDocs.Html
