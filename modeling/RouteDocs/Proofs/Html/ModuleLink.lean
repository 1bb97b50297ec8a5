import RouteDocs.Html.PlainHighlighter
import RouteDocs.Proofs.Html.Configured
import RouteDocs.Proofs.Html.LinkTemplate
import RouteDocs.Proofs.Session.Bundle

/-!
# Links to modules

A configuration is accepted if its link template has the placeholder in it, be it as
a field, in double braces or within another field. The template is used as a whole: one
that asks for something besides the module's name cannot be filled in. For a template
that looks up no attributes and has no placeholders in its formats, an element that
links to a module can be shown, and leads to an address with the name of the module in
it, exactly if the template can be read, can be filled in and has a field that shows the
whole name.

Results:
* `placeholder_of_ofSetting`: an accepted link template has the placeholder in it.
* `render_moduleLink`: what a link to a module is.
* `servesLinks_iff`: when every link to a module can be used.
-/
namespace RouteDocs

/-! ## Accepted templates -/

namespace Config

open Text

/-- An accepted link template has the placeholder in it. -/
theorem placeholder_of_ofSetting {s : Setting} {w : WideConfig} {c : Config}
    (hw : ofSetting s = .ok w) (hc : w.narrowed? = some c) :
    "\x7btarget\x7d".toList <:+: c.rendering.podLinkTemplate.toList := by
  obtain ⟨root, hconfig⟩ := isConfig_of_ofSetting hw
  obtain ⟨ms, -, hrendering⟩ := hconfig.rendering
  have hwithin := occursIn_iff.1 hrendering.holdsPlace
  obtain ⟨t, ht, hstring⟩ := Option.map_eq_some_iff.1 (string?_of_narrowed? hc).1
  rw [WideText.eq_ofChars ht] at hwithin
  rw [← hstring, String.toList_ofList (l := t)]
  exact infix_ofChars hwithin

end Config

namespace Html

open LinkTemplate (Field Flat Reads TemplatePiece)
open Replacement (IsTemplate)

/-- The attributes of a link to a module, and no others. -/
structure IsModuleLink (as : Attributes) (target : String) : Prop where
  target : Entries.get? as "to" = some (.text target)
  kind : Entries.get? as "type" = some (.text "pod")
  other : ∀ key, key ≠ "to" → key ≠ "type" → Entries.get? as key = none

theorem isModuleLink_pair (target : String) :
    IsModuleLink [("to", .text target), ("type", .text "pod")] target := by
  refine ⟨rfl, rfl, fun key hto htype => ?_⟩
  rw [Entries.get?, if_neg (Ne.symm hto), Entries.get?, if_neg (Ne.symm htype), Entries.get?]

/-- The opening tag of a link, up to its address. -/
def addressLead : List Char := "<a href=\"".toList

namespace Renderer

variable {r : Renderer}

/-- Every link to a module can be shown and leads to an address with the module's name in it. -/
def ServesLinks (r : Renderer) : Prop :=
  ∀ target, target ≠ "" → ∀ as, IsModuleLink as target →
    ∀ (ss trail : List String) (log : List Notice),
    ∃ html log', r.render trail (.element Kind.link.name as (ss.map .text)) log = .ok html log' ∧
      ∃ address, quotedAfter? addressLead html.toList = some address ∧
        target.toList <:+: address

theorem linkAddress_of_isModuleLink {as : Attributes} {target : String} (h : IsModuleLink as target)
    (hne : target ≠ "") :
    r.linkAddress as = LinkTemplate.fill r.config.podLinkTemplate target := by
  have hto : setAttribute? as "to" = some (.text target) := by
    rw [setAttribute?, h.target, Option.filter_some, if_pos (by simpa [Value.isSet] using hne)]
  have hsection : setAttribute? as "section" = none := by
    rw [setAttribute?, h.other "section" (by decide) (by decide)]
    rfl
  have hkind : hasText as "type" "pod" = true := by
    rw [hasText, h.kind]
    rfl
  have htext : (Value.text target).toText = .ok target := rfl
  have hpage : r.linkPage as = LinkTemplate.fill r.config.podLinkTemplate target := by
    rw [linkPage, hto]
    exact if_pos hkind
  have hplace : r.linkPlace as = .ok "" := by
    rw [linkPlace, hsection]
  rw [linkAddress, hpage, hplace]
  cases LinkTemplate.fill r.config.podLinkTemplate target with
  | error fault => rfl
  | ok page => exact congrArg Except.ok (String.append_empty)

/-- A link to a module. -/
theorem render_moduleLink {as : Attributes} {target : String} (h : IsModuleLink as target)
    (hne : target ≠ "") (trail ss : List String) :
    r.render trail (.element Kind.link.name as (ss.map .text)) =
      quiet (LinkTemplate.fill r.config.podLinkTemplate target) >>= fun address =>
        wrap "a" (some (.mapping [("href", .text address)])) as (quiet (r.texts ss)) := by
  have hkind : Kind.ofName? Kind.link.name = some .link := Kind.ofName?_eq_some_iff.2 rfl
  have hhtml : Entries.get? as Styling.htmlAttributesKey = none :=
    h.other _ (by decide) (by decide)
  rw [render.eq_def]
  simp only [hkind, linkAddress_of_isModuleLink h hne, linkAttributes, hhtml, renderAll_texts]
  rfl

theorem read_moduleLink {as : Attributes} {target address inner : String}
    (has : IsModuleLink as target) (hne : target ≠ "")
    (hfill : LinkTemplate.fill r.config.podLinkTemplate target = .ok address) (ss : List String)
    (hinner : r.texts ss = .ok inner) (trail : List String) (log : List Notice) :
    ∃ html, r.render trail (.element Kind.link.name as (ss.map .text)) log = .ok html log ∧
      quotedAfter? addressLead html.toList = some address.toList := by
  have hopening : (openingTagWith "a" [("href", .text address)]).toList =
      addressLead ++ (escapeChars true address.toList ++ ['"', '>']) := by
    have hlead : addressLead = '<' :: ("a".toList ++ ' ' :: ("href".toList ++ ['=', '"'])) := by
      decide
    rw [openingTagWith, sortedByName, List.mergeSort_singleton, toList_openingTagListing,
      List.map_singleton, openingChars_one, hlead]
    simp only [List.cons_append, List.append_assoc, List.nil_append]
    rfl
  have hrender : r.render trail (.element Kind.link.name as (ss.map .text)) log =
      .ok (openingTagWith "a" [("href", .text address)] ++ innerLineFeed as ++ inner ++
        innerLineFeed as ++ closingTag "a") log := by
    rw [render_moduleLink has hne, hfill, hinner]
    rfl
  refine ⟨_, hrender, ?_⟩
  simp only [String.toList_append, hopening, List.append_assoc, List.cons_append, List.nil_append]
  rw [quotedAfter?_append, unescape_takeWhile_escapeChars]

/-- When every link to a module can be used. The template is accepted for the placeholder in it. If
it looks up no attribute of the name and has no placeholder in a format, the links can be used
exactly if the texts in them are shown and the template is one that shows its targets. -/
theorem servesLinks_iff [Highlighter] {s : Setting} {w : WideConfig} {c : Config}
    (hw : Config.ofSetting s = .ok w) (hc : w.narrowed? = some c)
    (hflat : ∀ ps, Reads c.rendering.podLinkTemplate.toList ps → Flat ps) :
    "\x7btarget\x7d".toList <:+: c.rendering.podLinkTemplate.toList ∧
      (ServesLinks ⟨c.rendering, c.fallbackPrefix⟩ ↔
        (∀ m ∈ c.rendering.markers, IsTemplate (labelTemplate m.1 m.2)) ∧
          ∃ ps, Reads c.rendering.podLinkTemplate.toList ps ∧
            (∀ f, .field f ∈ ps → ∃ shown, f.shown ['x'] = .ok shown) ∧
            ∃ f, .field f ∈ ps ∧ f.Whole) := by
  refine ⟨Config.placeholder_of_ofSetting hw hc, ?_⟩
  rw [← LinkTemplate.shows_iff hflat]
  constructor
  · intro hserves
    constructor
    · obtain ⟨html, log', hshown, -⟩ := hserves "x" (by decide) _ (isModuleLink_pair "x") [""] [] []
      rw [render_moduleLink (isModuleLink_pair "x") (by decide)] at hshown
      obtain ⟨_, _, -, hshown⟩ := bind_ok hshown
      obtain ⟨_, _, -, hshown⟩ := bind_ok hshown
      obtain ⟨inner, _, hinner, -⟩ := bind_ok hshown
      obtain ⟨first, hfirst, -⟩ := bind_eq_ok (quiet_ok hinner)
      exact text_ok_iff.1 ⟨first, hfirst⟩
    · intro target hne
      obtain ⟨html, log', hshown, address, hread, hwithin⟩ :=
        hserves target hne _ (isModuleLink_pair target) [] [] []
      have hfilled := hshown
      rw [render_moduleLink (isModuleLink_pair target) hne] at hfilled
      obtain ⟨out, _, hfill, -⟩ := bind_ok hfilled
      obtain ⟨html', hshown', hread'⟩ :=
        read_moduleLink (isModuleLink_pair target) hne (quiet_ok hfill) [] rfl [] []
      rw [hshown] at hshown'
      cases hshown'
      rw [hread', Option.some.injEq] at hread
      exact ⟨out, quiet_ok hfill, hread ▸ hwithin⟩
  · rintro ⟨htemplates, hshows⟩ target hne as has ss trail log
    obtain ⟨address, hfill, hwithin⟩ := hshows target hne
    let r : Renderer := ⟨c.rendering, c.fallbackPrefix⟩
    obtain ⟨inner, hinner⟩ := texts_ok (r := r) (fun s => text_ok_iff.2 htemplates) ss
    obtain ⟨html, hrender, hread⟩ := read_moduleLink (r := r) has hne hfill ss hinner trail log
    exact ⟨html, log, hrender, _, hread, hwithin⟩

/-- Every link to a module can be used when nothing is set. -/
theorem servesLinks_default :
    ∃ w, Config.ofSetting (.mapping []) = .ok w ∧ w.narrowed? = some Config.default ∧
      (∀ ps, Reads RenderConfig.default.podLinkTemplate.toList ps → Flat ps) ∧
      ServesLinks ⟨RenderConfig.default, Config.default.fallbackPrefix⟩ := by
  let target : Field := ⟨"target".toList, none, []⟩
  let ps : List TemplatePiece :=
    "https://metacpan.org/module/".toList.map .char ++ [TemplatePiece.field target]
  have hw : Config.ofSetting (.mapping []) = .ok Config.base := rfl
  have hc : Config.base.narrowed? = some Config.default := by decide +kernel
  have hreads : Reads RenderConfig.default.podLinkTemplate.toList ps := by
    have hcut : RenderConfig.default.podLinkTemplate.toList =
        "https://metacpan.org/module/".toList ++ '{' :: "target\x7d".toList := by decide
    rw [hcut]
    exact .plain_append (by decide) (.field (by decide) rfl .nil)
  have hfield : ∀ f, .field f ∈ ps → f = target := fun f => LinkTemplate.eq_of_field_mem
  have hflat : ∀ ps, Reads RenderConfig.default.podLinkTemplate.toList ps → Flat ps := by
    intro qs hqs
    cases hqs.unique hreads
    refine ⟨fun f hf => ?_, fun f hf => ?_⟩
    · rw [hfield f hf]
      decide
    · rw [hfield f hf]
      decide
  obtain ⟨-, hiff⟩ := servesLinks_iff hw hc hflat
  refine ⟨_, hw, hc, hflat, hiff.2 ⟨fun m hm => ?_, ps, hreads, fun f hf => ?_, target, ?_, ?_⟩⟩
  · exact Replacement.isTemplate_iff.2
      ⟨_, parts_labelTemplate (orderly_default.capital m hm) (orderly_default.plainClass m hm)⟩
  · rw [hfield f hf]
    exact ⟨['x'], rfl⟩
  · exact List.mem_append_right _ List.mem_cons_self
  · exact ⟨rfl, .inl rfl, _, rfl, rfl⟩

/-- A template with another placeholder is accepted, and no link to a module can be shown. -/
theorem moduleLink_not_shown :
    let c : Config := { Config.default with rendering := { RenderConfig.default with
      podLinkTemplate := "https://x/\x7btarget\x7d?q=\x7bquery\x7d" } }
    (Config.ofValue (.mapping [("rendering", .mapping [
      ("pod_link_template", .text "https://x/\x7btarget\x7d?q=\x7bquery\x7d")])])).toOption =
        some c ∧
    (match Renderer.render ⟨c.rendering, c.fallbackPrefix⟩ []
        (.element "L" [("to", .text "Shop"), ("type", .text "pod")] [.text "Shop"]) [] with
      | .ok html _ => some html
      | .error .. => none) = none :=
  ⟨by decide +kernel, by decide +kernel⟩

end Renderer
end Html
end RouteDocs
