import RouteDocs.Html.RouteLink
import RouteDocs.Proofs.Html.Marked
import RouteDocs.Proofs.Letter

/-!
# Mentions in page text

References to routes are looked for in page text, where marker words are labels
already. If the methods are words of capitals that keep apart from the marker
words, a reference starts in the page text where one starts in the text itself.
It takes the same path, as long as no marker word is in that; else it ends in
the opening tag of the label.

Results:
* `referenceWith?_eq_some_iff`: what a reference is.
* `pieces_char`, `pieces_reference`, `pieces_append`: the pieces of a text, from its head on.
* `reference?_markedHtml`, `reference?_markedHtml_none`: the references at the head of page
  text are those at the head of the text.
* `path_markedHtml_of_marker`: what a reference takes in page text.
-/
namespace RouteDocs.Html

/-! ## References -/

/-- What stands before the path of a reference. -/
def referenceOpening (method : List Char) (b : Char) : List Char :=
  method ++ [b, '/']

/-- The path at the head of a text. -/
def path (s : List Char) : List Char :=
  s.takeWhile fun c => !Text.isBlank c

/-- A text begins with a reference: a method, a blank, a slash and a path. -/
theorem referenceWith?_eq_some_iff {method s r : List Char} :
    referenceWith? method s = some r ↔
      ∃ b tail, Text.isBlank b = true ∧ path tail ≠ [] ∧
        s = referenceOpening method b ++ tail ∧ r = referenceOpening method b ++ path tail := by
  constructor
  · intro h
    rw [referenceWith?] at h
    split at h
    · rename_i hp
      obtain ⟨t, rfl⟩ := List.isPrefixOf_iff_prefix.1 hp
      rw [List.drop_left] at h
      split at h
      · rename_i b rest
        dsimp only at h
        split at h
        · rename_i hcond
          rw [Bool.and_eq_true] at hcond
          refine ⟨b, rest, hcond.1, ?_, ?_, ?_⟩
          · simpa [path] using hcond.2
          · simp [referenceOpening]
          · rw [← Option.some.inj h]
            simp [referenceOpening, path]
        · cases h
      · cases h
    · cases h
  · rintro ⟨b, tail, hb, hpath, rfl, rfl⟩
    have hp : method.isPrefixOf (referenceOpening method b ++ tail) = true := by
      rw [List.isPrefixOf_iff_prefix, referenceOpening, List.append_assoc]
      exact List.prefix_append _ _
    have hne : (tail.takeWhile fun c => !Text.isBlank c).isEmpty = false := by
      simpa [path] using hpath
    rw [referenceWith?, if_pos hp]
    simp [referenceOpening, path, hb, hne]

section
variable {methods : List String} {s r : List Char}

/-- A reference at the head of a text has one of the methods, the first that makes one. -/
theorem reference?_eq_some_iff (hne : methods ≠ []) :
    reference? (methods.map String.toList) s = some r ↔
      ∃ before m after, methods = before ++ m :: after ∧ referenceWith? m.toList s = some r ∧
        ∀ k ∈ before, referenceWith? k.toList s = none := by
  have hmap : (methods.map String.toList).isEmpty = false := by simpa using hne
  rw [reference?, hmap, if_neg Bool.false_ne_true, List.findSome?_map, List.findSome?_eq_some_iff]
  rfl

theorem reference?_eq_none_iff (hne : methods ≠ []) :
    reference? (methods.map String.toList) s = none ↔
      ∀ m ∈ methods, referenceWith? m.toList s = none := by
  have hmap : (methods.map String.toList).isEmpty = false := by simpa using hne
  rw [reference?, hmap, if_neg Bool.false_ne_true, List.findSome?_map, List.findSome?_eq_none_iff]
  rfl

end

/-! ## The pieces from the head on -/

section
variable {methods : List String}

theorem piecesFrom_eq_drop (methods : List (List Char)) (skip : Nat) (s : List Char) :
    piecesFrom methods skip s = piecesFrom methods 0 (s.drop skip) := by
  induction skip generalizing s with
  | zero => rfl
  | succ skip ih =>
    cases s with
    | nil => rfl
    | cons c rest => exact ih rest

theorem pieces_nil : pieces methods [] = [] := by
  rw [pieces, piecesFrom]

theorem pieces_char {c : Char} {rest : List Char}
    (h : reference? (methods.map String.toList) (c :: rest) = none) :
    pieces methods (c :: rest) = .char c :: pieces methods rest := by
  rw [pieces, piecesFrom, h]
  rfl

theorem pieces_reference {r rest : List Char} (hr : r ≠ [])
    (h : reference? (methods.map String.toList) (r ++ rest) = some r) :
    pieces methods (r ++ rest) = .reference r :: pieces methods rest := by
  obtain ⟨c, r, rfl⟩ := List.exists_cons_of_ne_nil hr
  rw [List.cons_append] at h ⊢
  rw [pieces, piecesFrom, h]
  dsimp only
  rw [piecesFrom_eq_drop, List.length_cons, Nat.add_sub_cancel, List.drop_left]
  rfl

/-- Where no reference starts, the characters are pieces. -/
theorem pieces_append {u t : List Char}
    (h : ∀ n < u.length, reference? (methods.map String.toList) (u.drop n ++ t) = none) :
    pieces methods (u ++ t) = u.map .char ++ pieces methods t := by
  induction u with
  | nil => rfl
  | cons c u ih =>
    have hhead : reference? (methods.map String.toList) (c :: (u ++ t)) = none :=
      h 0 (Nat.zero_lt_succ _)
    have htail := ih fun n hn => h (n + 1) (Nat.succ_lt_succ hn)
    rw [List.cons_append, pieces_char hhead, htail]
    rfl

/-- The first character of a method stands at the head of a reference. -/
theorem reference?_none_of_not_start (hne : methods ≠ []) {s : List Char}
    (h : ∀ m ∈ methods, ¬ m.toList <+: s) : reference? (methods.map String.toList) s = none := by
  refine (reference?_eq_none_iff hne).2 fun m hm => ?_
  cases hr : referenceWith? m.toList s with
  | none => rfl
  | some r =>
    obtain ⟨b, tail, -, -, rfl, -⟩ := referenceWith?_eq_some_iff.1 hr
    refine absurd ?_ (h m hm)
    rw [referenceOpening, List.append_assoc]
    exact List.prefix_append _ _

theorem reference?_drop_append (hne : methods ≠ []) {u : List Char}
    (h : ∀ m ∈ methods, Apart u m.toList) {n : Nat} (hn : n < u.length) (t : List Char) :
    reference? (methods.map String.toList) (u.drop n ++ t) = none :=
  reference?_none_of_not_start hne fun m hm => (h m hm).not_start hn t

end

/-! ## Methods that keep apart from marker words -/

/-- Methods that page text leaves as they are: words of capitals without a marker word in them, and
that start nowhere in a marker word. -/
structure OrderlyMethods (markers : List (String × String)) (methods : List String) : Prop where
  ne_nil : methods ≠ []
  capital : ∀ m ∈ methods, Capital m.toList
  unmarked : ∀ m ∈ methods, ∀ k ∈ markers, ¬ k.1.toList <:+: m.toList
  apart : ∀ m ∈ methods, ∀ k ∈ markers, Apart k.1.toList m.toList

theorem orderlyMethods_default :
    OrderlyMethods RenderConfig.default.markers RenderConfig.default.routeMethods :=
  ⟨by decide, by decide, by decide +kernel, by decide +kernel⟩

theorem notMem_special_of_isBlank {c : Char} (h : Text.isBlank c = true) : c ∉ special := by
  intro hc
  have hall : ∀ x ∈ special, Text.isBlank x = false := by decide
  rw [hall c hc] at h
  cases h

/-- A word of capitals in a text stands on one side of any other character. -/
theorem infix_of_infix_append {w u t : List Char} {x : Char} (hw : Capital w)
    (hx : x.isUpper = false) (h : w <:+: u ++ x :: t) : w <:+: u ∨ w <:+: t := by
  induction u with
  | nil =>
    rw [List.nil_append, List.infix_cons_iff] at h
    rcases h with h | h
    · have := prefix_of_prefix_append (u := []) hw hx h
      exact absurd (List.prefix_nil.1 this) hw.1
    · exact .inr h
  | cons c u ih =>
    rw [List.cons_append, List.infix_cons_iff] at h
    rcases h with h | h
    · exact .inl (prefix_of_prefix_append hw hx (u := c :: u) h).isInfix
    · exact (ih h).imp (fun h => List.infix_cons h) id

section
variable {markers : List (String × String)} {methods : List String}

theorem infix_reference_iff (ho : Orderly markers) (hm : OrderlyMethods markers methods)
    {m : String} (hmem : m ∈ methods) {k : String × String} (hk : k ∈ markers) {b : Char}
    (hb : Text.isBlank b = true) (p : List Char) :
    k.1.toList <:+: referenceOpening m.toList b ++ p ↔ k.1.toList <:+: p := by
  have hcap := ho.capital k hk
  constructor
  · intro h
    rw [referenceOpening, List.append_assoc] at h
    rcases infix_of_infix_append hcap (Text.isUpper_of_isBlank hb) h with h | h
    · exact absurd h (hm.unmarked m hmem k hk)
    · rcases infix_of_infix_append (u := []) hcap (by decide) h with h | h
      · exact absurd (List.infix_nil.1 h) hcap.1
      · exact h
  · exact fun h => h.trans (List.suffix_append _ _).isInfix

theorem plain_referenceOpening {m : List Char} (hm : Capital m) {b : Char}
    (hb : Text.isBlank b = true) : ∀ c ∈ referenceOpening m b, c ∉ special := by
  intro c hc
  rw [referenceOpening, List.mem_append, List.mem_cons, List.mem_singleton] at hc
  rcases hc with hc | rfl | rfl
  · exact notMem_special_of_isUpper (hm.2 c hc)
  · exact notMem_special_of_isBlank hb
  · decide

/-- A character that is neither a capital nor special stands in page text as it is. -/
theorem markedHtml_plain (ho : Orderly markers) {c : Char} (hupper : c.isUpper = false)
    (hspecial : c ∉ special) (rest : List Char) :
    markedHtml markers (c :: rest) = c :: markedHtml markers rest := by
  have hat : markerAt? markers (c :: rest) = none := by
    refine markerAt?_eq_none_iff.2 fun k hk hp => ?_
    have hcap := ho.capital k hk
    exact hcap.1 (List.prefix_nil.1 (prefix_of_prefix_append (u := []) hcap hupper hp))
  rw [markedHtml_char hat, escapeChar_of_notMem hspecial]
  rfl

theorem markedHtml_blank (ho : Orderly markers) {c : Char} (hc : Text.isBlank c = true)
    (rest : List Char) : markedHtml markers (c :: rest) = c :: markedHtml markers rest :=
  markedHtml_plain ho (Text.isUpper_of_isBlank hc) (notMem_special_of_isBlank hc) rest

theorem markedHtml_referenceOpening (ho : Orderly markers) (hm : OrderlyMethods markers methods)
    {m : String} (hmem : m ∈ methods) {b : Char} (hb : Text.isBlank b = true)
    (tail : List Char) :
    markedHtml markers (referenceOpening m.toList b ++ tail) =
      referenceOpening m.toList b ++ markedHtml markers tail := by
  have hplain : escapeChars true m.toList = m.toList :=
    escapeChars_of_plain fun c hc => notMem_special_of_isUpper ((hm.capital m hmem).2 c hc)
  have hmethod : markedHtml markers (m.toList ++ b :: '/' :: tail) =
      m.toList ++ markedHtml markers (b :: '/' :: tail) := by
    rw [markedHtml_append, hplain]
    intro n hn
    refine markerAt?_eq_none_iff.2 fun k hk hp => hm.unmarked m hmem k hk ?_
    have hhead := prefix_of_prefix_append (ho.capital k hk) (Text.isUpper_of_isBlank hb) hp
    exact hhead.isInfix.trans (List.drop_suffix n _).isInfix
  have hslash := markedHtml_plain ho (c := '/') (by decide) (by decide) tail
  rw [markedHtml_blank ho hb, hslash] at hmethod
  simpa [referenceOpening] using hmethod

/-! ## Paths in page text -/

theorem path_nil : path [] = [] := rfl

theorem path_cons_of_isBlank {c : Char} (hc : Text.isBlank c = true) (s : List Char) :
    path (c :: s) = [] := by
  simp [path, hc]

theorem path_append {u t : List Char} (h : ∀ c ∈ u, Text.isBlank c = false) :
    path (u ++ t) = u ++ path t :=
  List.takeWhile_append_of_pos fun c hc => by rw [h c hc]; rfl

theorem path_cons {c : Char} (hc : Text.isBlank c = false) (s : List Char) :
    path (c :: s) = c :: path s := by
  simp [path, hc]

theorem isBlank_of_path_cons_eq_nil {c : Char} {s : List Char} (h : path (c :: s) = []) :
    Text.isBlank c = true := by
  cases hc : Text.isBlank c with
  | true => rfl
  | false =>
    rw [path_cons hc] at h
    cases h

theorem isBlank_of_mem_path {c : Char} {s : List Char} (h : c ∈ path s) :
    Text.isBlank c = false := by
  simpa using List.all_eq_true.1 (List.all_takeWhile (l := s)) c h

theorem path_spec (s : List Char) : ∃ rest, s = path s ++ rest ∧ path rest = [] := by
  induction s with
  | nil => exact ⟨[], rfl, rfl⟩
  | cons c s ih =>
    cases hc : Text.isBlank c with
    | true => exact ⟨c :: s, by rw [path_cons_of_isBlank hc]; rfl, path_cons_of_isBlank hc s⟩
    | false =>
      obtain ⟨rest, hrest, hblank⟩ := ih
      refine ⟨rest, ?_, hblank⟩
      rw [path_cons hc, List.cons_append, ← hrest]

theorem isBlank_of_mem_escapeChar {c x : Char} (hc : Text.isBlank c = false)
    (h : x ∈ escapeChar true c) : Text.isBlank x = false := by
  by_cases hmem : c ∈ special
  · have hall : ∀ c ∈ special, ∀ x ∈ escapeChar true c, Text.isBlank x = false := by decide
    exact hall c hmem x h
  · rw [escapeChar_of_notMem hmem, List.mem_singleton] at h
    rw [h, hc]

theorem isBlank_of_mem_escapeChars {s : List Char} (hs : ∀ c ∈ s, Text.isBlank c = false)
    {x : Char} (h : x ∈ escapeChars true s) : Text.isBlank x = false := by
  obtain ⟨c, hc, hx⟩ := List.mem_flatMap.1 h
  exact isBlank_of_mem_escapeChar (hs c hc) hx

theorem path_labelTemplate (word cssClass : String) (t : List Char) :
    path (labelTemplate word cssClass ++ t) = "<span".toList := by
  have hcut : "<span class=\"label ".toList = "<span".toList ++ ' ' :: "class=\"label ".toList := by
    decide
  rw [labelTemplate_eq, labelOpening_eq, hcut]
  simp only [List.append_assoc, List.cons_append]
  rw [path_append (by decide), path_cons_of_isBlank (by decide), List.append_nil]

theorem path_markedHtml_char {c : Char} {rest : List Char} (hc : Text.isBlank c = false)
    (hat : markerAt? markers (c :: rest) = none) :
    path (markedHtml markers (c :: rest)) =
      escapeChar true c ++ path (markedHtml markers rest) := by
  rw [markedHtml_char hat, path_append fun x hx => isBlank_of_mem_escapeChar hc hx]

/-- A path begins in page text where one begins in the text. -/
theorem path_markedHtml_eq_nil_iff (ho : Orderly markers) {s : List Char} :
    path (markedHtml markers s) = [] ↔ path s = [] := by
  cases s with
  | nil => rfl
  | cons c rest =>
    cases hc : Text.isBlank c with
    | true =>
      rw [markedHtml_blank ho hc, path_cons_of_isBlank hc, path_cons_of_isBlank hc]
    | false =>
      rw [path_cons hc]
      cases hat : markerAt? markers (c :: rest) with
      | some k =>
        obtain ⟨hk, tail, htail⟩ := markerAt?_eq_some hat
        rw [← htail] at hat ⊢
        rw [markedHtml_marker (ho.capital k hk).1 hat, path_labelTemplate]
        simp
      | none =>
        rw [path_markedHtml_char hc hat]
        simp [escapeChar_ne_nil]

/-- No marker word starts in a text that has none and that a blank or nothing follows. -/
theorem markerAt?_of_unmarked (ho : Orderly markers) {u rest : List Char}
    (hu : ∀ k ∈ markers, ¬ k.1.toList <:+: u) (hrest : path rest = []) (n : Nat) :
    markerAt? markers (u.drop n ++ rest) = none := by
  refine markerAt?_eq_none_iff.2 fun k hk hp => hu k hk ?_
  have hhead : k.1.toList <+: u.drop n := by
    cases rest with
    | nil => simpa using hp
    | cons c t =>
      have hc := isBlank_of_path_cons_eq_nil hrest
      exact prefix_of_prefix_append (ho.capital k hk) (Text.isUpper_of_isBlank hc) hp
  exact hhead.isInfix.trans (List.drop_suffix n u).isInfix

/-- A path with a marker word is cut in page text after the name of the label's tag. -/
theorem path_markedHtml_of_marker (ho : Orderly markers) {k : String × String} (hk : k ∈ markers)
    {s : List Char} (h : k.1.toList <:+: path s) :
    ∃ before, path (markedHtml markers s) = before ++ "<span".toList := by
  induction s with
  | nil => exact absurd (List.infix_nil.1 h) (ho.capital k hk).1
  | cons c rest ih =>
    cases hc : Text.isBlank c with
    | true =>
      rw [path_cons_of_isBlank hc, List.infix_nil] at h
      exact absurd h (ho.capital k hk).1
    | false =>
      cases hat : markerAt? markers (c :: rest) with
      | some k' =>
        obtain ⟨hk', tail, htail⟩ := markerAt?_eq_some hat
        rw [← htail] at hat ⊢
        rw [markedHtml_marker (ho.capital k' hk').1 hat, path_labelTemplate]
        exact ⟨[], rfl⟩
      | none =>
        rw [path_cons hc, List.infix_cons_iff] at h
        rcases h with h | h
        · -- the word would be at the head of the text
          have hpath : c :: path rest <+: c :: rest := by
            simpa [path] using List.takeWhile_prefix fun c => !Text.isBlank c
          exact absurd (h.trans hpath) (markerAt?_eq_none_iff.1 hat k hk)
        · obtain ⟨before, hbefore⟩ := ih h
          refine ⟨escapeChar true c ++ before, ?_⟩
          rw [path_markedHtml_char hc hat, hbefore, List.append_assoc]

/-! ## References at the head of page text -/

theorem referenceWith?_markedHtml (ho : Orderly markers) (hm : OrderlyMethods markers methods)
    {m : String} (hmem : m ∈ methods) {s r : List Char} :
    referenceWith? m.toList (markedHtml markers s) = some r ↔
      ∃ b tail, Text.isBlank b = true ∧ path (markedHtml markers tail) ≠ [] ∧
        s = referenceOpening m.toList b ++ tail ∧
        r = referenceOpening m.toList b ++ path (markedHtml markers tail) := by
  rw [referenceWith?_eq_some_iff]
  constructor
  · rintro ⟨b, t, hb, hpath, hs, rfl⟩
    obtain ⟨tail, rfl, rfl⟩ :=
      eq_append_of_markedHtml ho (plain_referenceOpening (hm.capital m hmem) hb) hs
    exact ⟨b, tail, hb, hpath, rfl, rfl⟩
  · rintro ⟨b, tail, hb, hpath, rfl, rfl⟩
    exact ⟨b, _, hb, hpath, markedHtml_referenceOpening ho hm hmem hb tail, rfl⟩

theorem referenceWith?_markedHtml_eq_none (ho : Orderly markers)
    (hm : OrderlyMethods markers methods) {m : String} (hmem : m ∈ methods) {s : List Char}
    (h : referenceWith? m.toList s = none) :
    referenceWith? m.toList (markedHtml markers s) = none := by
  rw [Option.eq_none_iff_forall_ne_some] at h ⊢
  intro r hr
  obtain ⟨b, tail, hb, hpath, hs, -⟩ := (referenceWith?_markedHtml ho hm hmem).1 hr
  exact h _ (referenceWith?_eq_some_iff.2
    ⟨b, tail, hb, mt (path_markedHtml_eq_nil_iff ho).2 hpath, hs, rfl⟩)

/-- Page text begins with no reference where the text does not. -/
theorem reference?_markedHtml_none (ho : Orderly markers) (hm : OrderlyMethods markers methods)
    {s : List Char} (h : reference? (methods.map String.toList) s = none) :
    reference? (methods.map String.toList) (markedHtml markers s) = none := by
  rw [reference?_eq_none_iff hm.ne_nil] at h ⊢
  exact fun m hmem => referenceWith?_markedHtml_eq_none ho hm hmem (h m hmem)

/-- Page text begins with a reference where the text does, with the same method and blank. -/
theorem reference?_markedHtml (ho : Orderly markers) (hm : OrderlyMethods markers methods)
    {s r : List Char} (h : reference? (methods.map String.toList) s = some r) :
    ∃ m ∈ methods, ∃ b tail, Text.isBlank b = true ∧ path tail ≠ [] ∧
      s = referenceOpening m.toList b ++ tail ∧ r = referenceOpening m.toList b ++ path tail ∧
      reference? (methods.map String.toList) (markedHtml markers s) =
        some (referenceOpening m.toList b ++ path (markedHtml markers tail)) := by
  obtain ⟨before, m, after, heq, hr, hbefore⟩ := (reference?_eq_some_iff hm.ne_nil).1 h
  have hmem : m ∈ methods := by simp [heq]
  obtain ⟨b, tail, hb, hpath, hs, hr⟩ := referenceWith?_eq_some_iff.1 hr
  refine ⟨m, hmem, b, tail, hb, hpath, hs, hr, ?_⟩
  refine (reference?_eq_some_iff hm.ne_nil).2 ⟨before, m, after, heq, ?_, fun k hk => ?_⟩
  · exact (referenceWith?_markedHtml ho hm hmem).2
      ⟨b, tail, hb, mt (path_markedHtml_eq_nil_iff ho).1 hpath, hs, rfl⟩
  · exact referenceWith?_markedHtml_eq_none ho hm (by simp [heq, hk]) (hbefore k hk)

theorem prefix_of_reference? (hm : OrderlyMethods markers methods) {s r : List Char}
    (h : reference? (methods.map String.toList) s = some r) : r ≠ [] ∧ r <+: s := by
  obtain ⟨-, m, -, -, hr, -⟩ := (reference?_eq_some_iff hm.ne_nil).1 h
  obtain ⟨b, tail, -, -, rfl, rfl⟩ := referenceWith?_eq_some_iff.1 hr
  refine ⟨by simp [referenceOpening], ?_⟩
  exact (List.prefix_append_right_inj _).2 (List.takeWhile_prefix _)

/-- A reference without marker words ends where the text has a blank or ends, and its page text is
the reference at the head of the page text. -/
theorem reference?_markedHtml_of_unmarked (ho : Orderly markers)
    (hm : OrderlyMethods markers methods) {r rest : List Char}
    (h : reference? (methods.map String.toList) (r ++ rest) = some r)
    (hr : ∀ k ∈ markers, ¬ k.1.toList <:+: r) :
    path rest = [] ∧
      reference? (methods.map String.toList) (escapeChars true r ++ markedHtml markers rest) =
        some (escapeChars true r) := by
  obtain ⟨m, hmem, b, tail, hb, -, hs, hreq, href⟩ := reference?_markedHtml ho hm h
  obtain ⟨rest', htail, hrest'⟩ := path_spec tail
  have hrest : rest = rest' := by
    rw [hreq, List.append_assoc, List.append_cancel_left_eq] at hs
    exact List.append_cancel_left (hs.trans htail)
  subst hrest
  have hpath : ∀ k ∈ markers, ¬ k.1.toList <:+: path tail := fun k hk hin =>
    hr k hk (hreq ▸ (infix_reference_iff ho hm hmem hk hb _).2 hin)
  have hopening := escapeChars_of_plain (plain_referenceOpening (hm.capital m hmem) hb)
  have hescaped : escapeChars true r =
      referenceOpening m.toList b ++ escapeChars true (path tail) := by
    rw [hreq, escapeChars_append, hopening]
  have hmarked : ∀ u, (∀ k ∈ markers, ¬ k.1.toList <:+: u) →
      markedHtml markers (u ++ rest) = escapeChars true u ++ markedHtml markers rest :=
    fun u hu => markedHtml_append fun n _ => markerAt?_of_unmarked ho hu hrest' n
  have hend : path (markedHtml markers tail) = escapeChars true (path tail) := by
    have hplain : ∀ x ∈ escapeChars true (path tail), Text.isBlank x = false :=
      fun x hx => isBlank_of_mem_escapeChars (fun c hc => isBlank_of_mem_path hc) hx
    rw [htail, hmarked _ hpath, path_append hplain, (path_markedHtml_eq_nil_iff ho).2 hrest',
      List.append_nil, ← htail]
  refine ⟨hrest', ?_⟩
  rw [← hmarked r hr, href, hend, hescaped]

/-- A reference with a marker word is cut in page text after the name of the label's tag. -/
theorem reference?_markedHtml_of_marker (ho : Orderly markers)
    (hm : OrderlyMethods markers methods) {s r : List Char}
    (h : reference? (methods.map String.toList) s = some r) {k : String × String}
    (hk : k ∈ markers) (hin : k.1.toList <:+: r) :
    ∃ before, reference? (methods.map String.toList) (markedHtml markers s) =
      some (before ++ "<span".toList) := by
  obtain ⟨m, hmem, b, tail, hb, -, -, rfl, href⟩ := reference?_markedHtml ho hm h
  rw [infix_reference_iff ho hm hmem hk hb] at hin
  obtain ⟨before, hbefore⟩ := path_markedHtml_of_marker ho hk hin
  refine ⟨referenceOpening m.toList b ++ before, ?_⟩
  rw [href, hbefore, List.append_assoc]

end
end RouteDocs.Html
