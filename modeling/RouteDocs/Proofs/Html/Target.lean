import RouteDocs.Html.PlainHighlighter
import RouteDocs.Proofs.Anchor
import RouteDocs.Proofs.Html.Markup

/-!
# Where a mention leads

The mention of a route links to the identifier of its page text; the heading of
the route has the identifier of its text. Both leave out entities and tags, but
the page text has entities for the special characters of the text. So the link
leaves these characters out, and the heading makes hyphens of them.

Results:
* `text_eq_link`: a text that is a route and no more is one link.
* `normalizeChars_escapeChars`, `normalizeChars_chars`: the two identifiers of a route.
* `link_eq_anchor_iff`: when the link leads to the heading.
-/
namespace RouteDocs.Html

/-- A character that stands in page text as it is. -/
def isPlain (c : Char) : Bool :=
  !special.contains c

theorem isPlain_iff {c : Char} : isPlain c = true ↔ c ∉ special := by
  simp [isPlain]

theorem isPlain_of_isAllowed {c : Char} (h : Identifier.isAllowed c = true) : isPlain c = true := by
  rw [isPlain_iff]
  exact notMem_special_of_isAllowed h

/-! ## The identifier of page text -/

/-- The entities of page text are left out again, and with them the special characters. -/
theorem dropSpans_escapeChars (s : List Char) :
    Identifier.dropSpans '&' ';' none (escapeChars true s) = s.filter isPlain := by
  induction s with
  | nil => rfl
  | cons c s ih =>
    have hcons : escapeChars true (c :: s) = escapeChar true c ++ escapeChars true s :=
      List.flatMap_cons
    by_cases hc : c ∈ special
    · obtain ⟨name, heq, hne, hname⟩ := escapeChar_of_mem hc
      have hsemi : ';' ∉ name := fun h => absurd (hname _ h) (by decide)
      rw [List.filter_cons_of_neg (by rwa [isPlain_iff, Classical.not_not]), hcons, heq,
        List.cons_append, List.append_assoc, List.singleton_append,
        Identifier.dropSpans_span hne hsemi, ih]
    · have hamp : '&' ∉ [c] := by
        rw [List.mem_singleton]
        rintro rfl
        exact hc (by decide)
      rw [List.filter_cons_of_pos (isPlain_iff.2 hc), hcons, escapeChar_of_notMem hc,
        Identifier.dropSpans_append_none hamp, ih, List.singleton_append]

theorem lowerAll_filter (s : List Char) :
    Text.lowerAll (s.filter isPlain) = (Text.lowerAll s).filter isPlain := by
  induction s with
  | nil => rfl
  | cons c s ih =>
    have hspecial : ∀ x ∈ special, Text.smallForm x = [x] ∧ 0 < x.toNat ∧ x.toNat < 0x61 := by
      decide
    by_cases hc : c ∈ special
    · have hplain : ¬ isPlain c = true := by rwa [isPlain_iff, Classical.not_not]
      rw [List.filter_cons_of_neg hplain, Text.lowerAll_cons, (hspecial c hc).1,
        List.singleton_append, List.filter_cons_of_neg hplain, ih]
    · have hsmall : (Text.smallForm c).filter isPlain = Text.smallForm c := by
        refine List.filter_eq_self.2 fun x hx => isPlain_iff.2 fun hmem => hc ?_
        rwa [← Text.eq_of_mem_smallForm (hspecial x hmem).2 hx]
      rw [List.filter_cons_of_pos (isPlain_iff.2 hc), Text.lowerAll_cons, Text.lowerAll_cons,
        List.filter_append, hsmall, ih]

/-! ## Routes -/

/-- A route: a method, a blank, a slash and a path. -/
structure Route where
  method : String
  blank : Char
  path : List Char
  known : method ∈ RenderConfig.default.routeMethods
  isBlank_blank : Text.isBlank blank = true
  path_ne_nil : path ≠ []
  isBlank_path : ∀ c ∈ path, Text.isBlank c = false

namespace Route

variable (r : Route)

def chars : List Char :=
  referenceOpening r.method.toList r.blank ++ r.path

def text : String :=
  String.ofList r.chars

theorem toList_text : r.text.toList = r.chars :=
  String.toList_ofList

theorem capital_method : Capital r.method.toList :=
  orderlyMethods_default.capital r.method r.known

theorem path_path : Html.path r.path = r.path := by
  have h := path_append (t := []) r.isBlank_path
  rwa [List.append_nil, path_nil, List.append_nil] at h

/-- The method is what stands before the first blank. -/
theorem path_referenceOpening {m : List Char} (hm : Capital m) {b : Char}
    (hb : Text.isBlank b = true) (t : List Char) : Html.path (referenceOpening m b ++ t) = m := by
  rw [referenceOpening, List.append_assoc, path_append fun c hc => Text.isBlank_of_isUpper (hm.2 c hc),
    List.cons_append, path_cons_of_isBlank hb, List.append_nil]

theorem reference?_chars :
    reference? (RenderConfig.default.routeMethods.map String.toList) r.chars = some r.chars := by
  have hm := orderlyMethods_default
  have hwith : referenceWith? r.method.toList r.chars = some r.chars := by
    refine referenceWith?_eq_some_iff.2 ⟨r.blank, r.path, r.isBlank_blank, ?_, rfl, ?_⟩
    · rw [r.path_path]
      exact r.path_ne_nil
    · rw [r.path_path, chars]
  cases href : reference? (RenderConfig.default.routeMethods.map String.toList) r.chars with
  | none =>
    rw [(reference?_eq_none_iff hm.ne_nil).1 href r.method r.known] at hwith
    cases hwith
  | some s =>
    obtain ⟨before, m, after, heq, hs, -⟩ := (reference?_eq_some_iff hm.ne_nil).1 href
    have hmem : m ∈ RenderConfig.default.routeMethods := by simp [heq]
    obtain ⟨b, tail, hb, -, hchars, -⟩ := referenceWith?_eq_some_iff.1 hs
    -- the method that fits first is the one of the route
    have hmethod : r.method.toList = m.toList := by
      rw [← path_referenceOpening r.capital_method r.isBlank_blank r.path,
        ← path_referenceOpening (hm.capital m hmem) hb tail, ← hchars, chars]
    rw [← hmethod, hwith] at hs
    exact hs.symm

/-! ## The two identifiers -/

theorem exists_capital : ∃ c t, c.isUpper = true ∧ r.method.toList = c :: t := by
  obtain ⟨c, t, h⟩ := List.exists_cons_of_ne_nil r.capital_method.1
  exact ⟨c, t, r.capital_method.2 c (h ▸ List.mem_cons_self), h⟩

theorem filter_chars :
    r.chars.filter isPlain = referenceOpening r.method.toList r.blank ++ r.path.filter isPlain := by
  have hopening := plain_referenceOpening r.capital_method r.isBlank_blank
  rw [chars, List.filter_append,
    List.filter_eq_self.2 fun c hc => isPlain_iff.2 (hopening c hc)]

/-- What begins as the route and goes on without blanks has the identifier of its characters, once
tags and entities are dropped. -/
theorem normalizeChars_of_opening {fallback s p : List Char} (hp : ∀ c ∈ p, Text.isBlank c = false)
    (hs : Identifier.withoutSpans s = referenceOpening r.method.toList r.blank ++ p) :
    Identifier.normalizeChars fallback s =
      Identifier.joinRuns false (Text.lowerAll (Identifier.withoutSpans s)) := by
  obtain ⟨c, t, hc, hmethod⟩ := r.exists_capital
  have hcons : Identifier.withoutSpans s = c :: (t ++ r.blank :: '/' :: p) := by
    simp [hs, referenceOpening, hmethod]
  rw [hcons]
  refine Identifier.normalizeChars_eq hcons hc fun d hd => ?_
  have hlast : c :: (t ++ r.blank :: '/' :: p) = c :: (t ++ [r.blank]) ++ '/' :: p := by simp
  rw [hlast, List.getLast?_append, List.getLast?_cons, Option.some_or, Option.mem_some_iff] at hd
  cases hp' : p.getLast? with
  | none =>
    rw [hp', Option.getD_none] at hd
    subst hd
    decide
  | some x =>
    rw [hp', Option.getD_some] at hd
    subst hd
    exact hp x (List.mem_of_getLast? hp')

/-- The identifier of the page text of a route: that of the route without special characters. -/
theorem normalizeChars_escapeChars (fallback : List Char) :
    Identifier.normalizeChars fallback (escapeChars true r.chars) =
      Identifier.joinRuns false ((Text.lowerAll r.chars).filter isPlain) := by
  have hspans : Identifier.withoutSpans (escapeChars true r.chars) = r.chars.filter isPlain := by
    have hlt : '<' ∉ escapeChars true r.chars := notMem_escapeChars (by decide) (by decide) _
    have htags : ¬ Identifier.HasSpan '<' '>' (escapeChars true r.chars) :=
      Identifier.not_hasSpan_of_notMem hlt
    rw [Identifier.withoutSpans, Identifier.dropSpans_of_not_hasSpan htags, dropSpans_escapeChars]
  have hpath : ∀ c ∈ r.path.filter isPlain, Text.isBlank c = false :=
    fun c hc => r.isBlank_path c (List.mem_filter.1 hc).1
  rw [← lowerAll_filter, ← hspans]
  refine r.normalizeChars_of_opening hpath ?_
  rw [hspans, r.filter_chars]

/-- The identifier of a route: that of the route without tags and entities. -/
theorem normalizeChars_chars (fallback : List Char) :
    Identifier.normalizeChars fallback r.chars =
      Identifier.joinRuns false (Text.lowerAll (Identifier.withoutSpans r.chars)) := by
  have hplain := plain_referenceOpening r.capital_method r.isBlank_blank
  have hpath : ∀ c ∈ Identifier.withoutSpans r.path, Text.isBlank c = false :=
    fun c hc => r.isBlank_path c ((Identifier.withoutSpans_sublist r.path).subset hc)
  refine r.normalizeChars_of_opening hpath ?_
  exact Identifier.withoutSpans_append (fun h => hplain _ h (by decide))
    (fun h => hplain _ h (by decide)) r.path

/-- Where there are no tags and entities, the two identifiers are the same exactly if every run of
characters that are not allowed has a plain one. -/
theorem normalizeChars_eq_iff (fallback : List Char)
    (htags : ¬ Identifier.HasSpan '<' '>' r.chars)
    (hentities : ¬ Identifier.HasSpan '&' ';' r.chars) :
    Identifier.normalizeChars fallback (escapeChars true r.chars) =
        Identifier.normalizeChars fallback r.chars ↔
      ∀ run ∈ Identifier.runs (Text.lowerAll r.chars), Identifier.Kept isPlain run := by
  rw [r.normalizeChars_escapeChars, r.normalizeChars_chars,
    Identifier.withoutSpans_eq_self htags hentities,
    Identifier.joinRuns_filter_eq_iff fun c hc => isPlain_of_isAllowed hc]

/-- Where a tag or entity has something in it that an identifier keeps, only the identifier of the
page text has it. -/
theorem normalizeChars_ne (fallback : List Char) {v : List Char} (hv : 0 < Identifier.wordSize v)
    (h : Identifier.InSpan '<' '>' v r.chars ∨
      ¬ Identifier.HasSpan '<' '>' r.chars ∧ Identifier.InSpan '&' ';' v r.chars) :
    Identifier.normalizeChars fallback (escapeChars true r.chars) ≠
      Identifier.normalizeChars fallback r.chars := by
  intro heq
  have hsame := congrArg (List.countP Identifier.isWordChar) heq
  have hplain : ∀ c, Identifier.isWordChar c = true → isPlain c = true := by
    intro c hc
    rw [Identifier.isWordChar, Bool.and_eq_true] at hc
    exact isPlain_of_isAllowed hc.1
  have hfilter : ((Text.lowerAll r.chars).filter isPlain).countP Identifier.isWordChar =
      Identifier.wordSize r.chars := by
    rw [List.countP_filter, Identifier.wordSize]
    refine List.countP_congr fun c _ => ?_
    rw [Bool.and_eq_true]
    exact ⟨fun h => h.1, fun h => ⟨h, hplain c h⟩⟩
  rw [r.normalizeChars_escapeChars, r.normalizeChars_chars, Identifier.countP_joinRuns,
    Identifier.countP_joinRuns, hfilter] at hsame
  exact absurd hsame (Nat.ne_of_gt (Identifier.wordSize_withoutSpans_lt hv h))

/-! ## The link and the heading -/

/-- A route without marker words is shown as one link. -/
theorem text_eq_link [Highlighter] (fallback : String)
    (hmarkers : ∀ k ∈ RenderConfig.default.markers, ¬ k.1.toList <:+: r.text.toList) :
    Renderer.text ⟨RenderConfig.default, fallback⟩ r.text = .ok
      ("<a href=\"" ++ ("#!/" ++ Identifier.normalize fallback (escape true r.text)) ++ "\">" ++
        escape true r.text ++ "</a>") := by
  have href : reference? (RenderConfig.default.routeMethods.map String.toList) (r.chars ++ []) =
      some r.chars := by
    rw [List.append_nil, r.reference?_chars]
  rw [toList_text] at hmarkers
  have hlinked : linked RenderConfig.default.markers RenderConfig.default.routeMethods "#!/"
      (Identifier.normalize fallback) (r.chars ++ []) = _ :=
    linked_reference orderly_default orderlyMethods_default href hmarkers
  rw [List.append_nil, linked_nil, List.append_nil] at hlinked
  rw [text_eq orderly_default, toList_text]
  refine congrArg Except.ok ((congrArg String.ofList hlinked).trans ?_)
  rw [linkHtml, String.ofList_toList, escape, toList_text]

/-- Where the mention of a route leads. Without tags and entities in it, to the heading of the route
exactly if every run of characters that an identifier may not hold has one that is no special
character. With a tag or entity that an identifier keeps something of, never. -/
theorem link_eq_anchor_iff [Highlighter] (fallback : String) {as : Attributes} {cs : List Node}
    (hmarkers : ∀ k ∈ RenderConfig.default.markers, ¬ k.1.toList <:+: r.text.toList)
    (hheading : Anchor.ofAttributes? as = none) (htext : Node.flattenAll cs = r.text) :
    ∃ link anchor,
      Renderer.text ⟨RenderConfig.default, fallback⟩ r.text =
        .ok ("<a href=\"" ++ link ++ "\">" ++ escape true r.text ++ "</a>") ∧
      Anchor.ofNode (Anchor.ensureNode (Identifiers.ofSeed [] fallback)
        (.element Kind.head3.name as cs)).1 = .text anchor ∧
      (¬ Identifier.HasSpan '<' '>' r.text.toList → ¬ Identifier.HasSpan '&' ';' r.text.toList →
        (link = RenderConfig.default.anchorPrefix ++ anchor ↔
          ∀ run ∈ Identifier.runs (Text.lowerAll r.text.toList),
            run ≠ [] → ∃ c ∈ run, c ∉ special)) ∧
      ∀ v, 0 < Identifier.wordSize v →
        Identifier.InSpan '<' '>' v r.text.toList ∨
          ¬ Identifier.HasSpan '<' '>' r.text.toList ∧
            Identifier.InSpan '&' ';' v r.text.toList →
        link ≠ RenderConfig.default.anchorPrefix ++ anchor := by
  have hsame : "#!/" ++ Identifier.normalize fallback (escape true r.text) =
        RenderConfig.default.anchorPrefix ++ Identifier.normalize fallback r.text ↔
      Identifier.normalizeChars fallback.toList (escapeChars true r.chars) =
        Identifier.normalizeChars fallback.toList r.chars := by
    have hstart : RenderConfig.default.anchorPrefix = "#!/" := rfl
    rw [hstart, String.append_right_inj, Identifier.normalize, Identifier.normalize,
      String.ofList_inj, escape, String.toList_ofList, toList_text]
  have hanchor : Anchor.ofNode (Anchor.ensureNode (Identifiers.ofSeed [] fallback)
      (.element Kind.head3.name as cs)).1 = .text (Identifier.normalize fallback r.text) := by
    rw [Anchor.ensureNode_of_none _ hheading, htext, Anchor.ofNode, Node.attributes,
      Anchor.ofAttributes?_put]
    rfl
  refine ⟨_, _, r.text_eq_link fallback hmarkers, hanchor, fun htags hentities => ?_,
    fun v hv h => ?_⟩
  · rw [toList_text] at htags hentities ⊢
    have hiff := hsame.trans (r.normalizeChars_eq_iff fallback.toList htags hentities)
    simpa only [Identifier.Kept, isPlain_iff] using hiff
  · rw [toList_text] at h
    exact mt hsame.1 (r.normalizeChars_ne fallback.toList hv h)

def search : Route where
  method := "GET"
  blank := ' '
  path := "search?q=a".toList
  known := by decide
  isBlank_blank := by decide
  path_ne_nil := by decide
  isBlank_path := by decide

/-- The mention of a route with a query leads to its heading. -/
theorem link_eq_anchor_of_search :
    ∃ link anchor,
      Renderer.text ⟨RenderConfig.default, "pod"⟩ search.text =
        .ok ("<a href=\"" ++ link ++ "\">" ++ escape true search.text ++ "</a>") ∧
      Anchor.ofNode (Anchor.ensureNode (Identifiers.ofSeed [] "pod")
        (.element Kind.head3.name [] [.text search.text])).1 = .text anchor ∧
      link = RenderConfig.default.anchorPrefix ++ anchor := by
  have hmarkers : ∀ k ∈ RenderConfig.default.markers, ¬ k.1.toList <:+: search.text.toList := by
    rw [toList_text]
    decide +kernel
  have hplain : '<' ∉ search.text.toList ∧ '&' ∉ search.text.toList := by
    rw [toList_text]
    decide +kernel
  have hruns : ∀ run ∈ Identifier.runs (Text.lowerAll search.text.toList),
      run ≠ [] → ∃ c ∈ run, c ∉ special := by
    rw [toList_text]
    decide +kernel
  have hheading : Anchor.ofAttributes? [] = none := rfl
  have htext : Node.flattenAll [.text search.text] = search.text := String.append_empty
  obtain ⟨link, anchor, hlink, hanchor, hiff, -⟩ :=
    search.link_eq_anchor_iff "pod" hmarkers hheading htext
  have hsame := hiff (Identifier.not_hasSpan_of_notMem hplain.1)
    (Identifier.not_hasSpan_of_notMem hplain.2)
  exact ⟨link, anchor, hlink, hanchor, hsame.2 hruns⟩

/-- The link leaves out an ampersand, and the heading makes a hyphen of it. -/
theorem link_ne_anchor :
    (Renderer.text ⟨RenderConfig.default, "pod"⟩ "GET /a&b").toOption =
        some "<a href=\"#!/get-ab\">GET /a&amp;b</a>" ∧
      Anchor.ofNode (Anchor.ensureNode (Identifiers.ofSeed [] "pod")
        (.element Kind.head3.name [] [.text "GET /a&b"])).1 = .text "get-a-b" := by
  refine ⟨by decide +kernel, ?_⟩
  have hfresh : (Identifiers.ofSeed [] "pod").fresh (Node.flattenAll [.text "GET /a&b"]) =
      "get-a-b" := by
    decide +kernel
  rw [Anchor.ensureNode_of_none _ rfl, hfresh]
  exact congrArg (·.getD .null) (Anchor.ofAttributes?_put [] "get-a-b")

end Route
end RouteDocs.Html
