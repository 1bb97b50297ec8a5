import RouteDocs.Proofs.Bind
import RouteDocs.Proofs.Json.Cut
import RouteDocs.Proofs.TreeFile

/-!
# Which texts are tree files

A tree file is an array, or a mapping of a `tree` and maybe a `path`. The reader
looks at each member as it comes and refuses the first that is none of these,
so a key that comes again must fit every time. What has been read of a mapping
follows the value of its text, member by member.

Results:
* `readMember_ok`, `readMember_refused`: what the reader does with a member.
* `readTree_ok`, `readTree_refused`: the array and the path that a text gives, if it gives any.
* `read_accepts`: the texts that are read, what they are read as, and what is
  reported of the others.
-/
namespace RouteDocs

namespace TreeFile

open Json (Token valueTokens memberTokens)

/-- A member that may stand next to a tree, or is the tree. -/
inductive IsField : String × Value → Prop where
  | tree (items : List Value) : IsField ("tree", .list items)
  | noPath : IsField ("path", .null)
  | path (s : String) : IsField ("path", .text s)

theorem IsField.exists_items {v : Value} (h : IsField ("tree", v)) : ∃ items, v = .list items := by
  generalize hm : ("tree", v) = m at h
  cases h with
  | tree items => exact ⟨items, congrArg Prod.snd hm⟩
  | noPath => simp at hm
  | path s => simp at hm

def pathOf : Option Value → Option String
  | some (.text s) => some s
  | _ => none

/-- The array that a text gives, and the path of its module if it gives one. A text can give a key
more than once; the last of its values counts. -/
inductive Gives : Value → Value → Option String → Prop where
  | bare (items : List Value) : Gives (.list items) (Value.list items).withoutRepeats none
  | wrapped {ms members : List (String × Value)} {array : Value} (hfields : ∀ m ∈ ms, IsField m)
      (hvalue : (Value.mapping ms).withoutRepeats = .mapping members)
      (htree : Entries.get? members "tree" = some array) :
      Gives (.mapping ms) array (pathOf (Entries.get? members "path"))

theorem Gives.isField {ms : List (String × Value)} {array : Value} {path : Option String}
    (h : Gives (.mapping ms) array path) : ∀ m ∈ ms, IsField m := by
  cases h with
  | wrapped hfields _ _ => exact hfields

variable (file : String)

/-! ## A value of any type -/

theorem readAny_of_isInRange (base : String) {v : Value} (hv : v.isInRange = true)
    (ts : List Token) : readAny file base (valueTokens v ++ ts) = .ok (v.withoutRepeats, ts) := by
  rw [readAny, Json.readValue_of_isInRange hv]

theorem readAny_notInRange (base : String) {v : Value} (hv : v.isInRange = false)
    (ts : List Token) :
    ∃ p, readAny file base (valueTokens v ++ ts) = .error (.wrongShape file p) := by
  obtain ⟨place, hlong | ⟨-, hgreat⟩⟩ := Json.readValue_notInRange hv ts
  · exact ⟨.intTooLong (base ++ placeText place), by rw [readAny, hlong]; rfl⟩
  · exact ⟨.realTooGreat (base ++ placeText place), by rw [readAny, hgreat]; rfl⟩

/-- Where a value stands that has another type than expected, its type is reported, or that it is
too great a number. -/
theorem refused_of_mismatch {file expected place : String} {α : Type} {r : Except Fault α} {t : Token}
    (hr : r = .error (mismatch file expected place t)) (ht : typeName t ≠ none) :
    ∃ p, r = .error (.wrongShape file p) := by
  rw [hr, mismatch]
  split
  · exact ⟨_, rfl⟩
  · split
    · exact ⟨_, rfl⟩
    · contradiction

/-! ## A member -/

/-- The wrapper holds what the members so far give. -/
structure Wrapper.Holds (w : Wrapper) (members : Entries String Value) : Prop where
  tree : w.tree = Entries.get? members "tree"
  path : w.path = pathOf (Entries.get? members "path")

variable {w : Wrapper}

/-- A field is read, and the wrapper holds it. -/
theorem readMember_ok {members : Entries String Value} (hw : w.Holds members) {k : String}
    {v : Value} (hfield : IsField (k, v)) (hv : v.isInRange = true) (ts : List Token) :
    ∃ w', readMember file w (some k) (valueTokens v ++ ts) = .ok (w', ts) ∧
      w'.Holds (Entries.put members k v.withoutRepeats) := by
  cases hfield with
  | tree items =>
    refine ⟨{ w with tree := some (Value.list items).withoutRepeats }, ?_, ?_⟩
    · have hread := readAny_of_isInRange file "$.tree" hv ts
      rw [valueTokens, List.cons_append] at hread ⊢
      rw [readMember, hread]
      rfl
    · constructor
      · rw [Entries.get?_put, if_pos rfl]
      · rw [Entries.get?_put, if_neg (by decide), hw.path]
  | noPath =>
    refine ⟨{ w with path := none }, rfl, ?_, ?_⟩
    · rw [Entries.get?_put, if_neg (by decide), hw.tree]
    · rw [Entries.get?_put, if_pos rfl]
      rfl
  | path s =>
    refine ⟨{ w with path := some s }, rfl, ?_, ?_⟩
    · rw [Entries.get?_put, if_neg (by decide), hw.tree]
    · rw [Entries.get?_put, if_pos rfl]
      rfl

theorem readMember_unknown {k : String} (htree : k ≠ "tree") (hpath : k ≠ "path")
    (ts : List Token) :
    readMember file w (some k) ts = .error (.wrongShape file (.unknownField k)) := by
  unfold readMember
  split <;> simp_all

/-- A member that is no field, or has a number out of range, is refused. -/
theorem readMember_refused {k : String} {v : Value} (hnot : ¬ (IsField (k, v) ∧ v.isInRange = true))
    (ts : List Token) :
    ∃ p, readMember file w (some k) (valueTokens v ++ ts) = .error (.wrongShape file p) := by
  by_cases htree : k = "tree"
  · subst htree
    cases v with
    | list items =>
      have hv : (Value.list items).isInRange = false := by simpa [IsField.tree] using hnot
      obtain ⟨p, hp⟩ := readAny_notInRange file "$.tree" hv ts
      rw [valueTokens, List.cons_append] at hp ⊢
      exact ⟨p, by rw [readMember, hp]; rfl⟩
    | _ => exact refused_of_mismatch rfl nofun
  by_cases hpath : k = "path"
  · subst hpath
    cases v with
    | null => exact absurd ⟨.noPath, rfl⟩ hnot
    | text s => exact absurd ⟨.path s, rfl⟩ hnot
    | _ => exact refused_of_mismatch rfl nofun
  exact ⟨_, readMember_unknown file htree hpath _⟩

/-! ## The members of a mapping -/

/-- What stands before a member. -/
def separator (first : Bool) : List Token := if first then [] else [.comma]

theorem readMembers_cons (first : Bool) (k : String) (ts : List Token) :
    readMembers file first w (separator first ++ .text (some k) :: .colon :: ts) =
      (readMember file w (some k) ts).bind fun (w, rest) => readMembers file false w rest := by
  cases first with
  | false =>
    rw [separator, if_neg Bool.false_ne_true, List.singleton_append, readMembers]
    cases readMember file w (some k) ts <;> rfl
  | true =>
    rw [separator, if_pos rfl, List.nil_append, readMembers]
    cases readMember file w (some k) ts <;> rfl

theorem readMembers_closeMapping (first : Bool) (ts : List Token) :
    readMembers file first w (.closeMapping :: ts) = .ok (w, ts) := by
  rw [readMembers]

theorem readMembers_ok (first : Bool) (ts : List Token) {w : Wrapper}
    {members : Entries String Value} (hw : w.Holds members) : ∀ ms : List (String × Value), ms ≠ [] →
    (∀ m ∈ ms, IsField m ∧ m.2.isInRange = true) →
      ∃ w', readMembers file first w (separator first ++ (memberTokens ms ++ .closeMapping :: ts)) =
          .ok (w', ts) ∧
        w'.Holds ((Value.membersWithoutRepeats ms).foldl (fun es (k, v) => Entries.put es k v)
          members)
  | [], hne, _ => absurd rfl hne
  | [(k, v)], _, h => by
    obtain ⟨hfield, hv⟩ := h (k, v) (List.mem_cons_self ..)
    obtain ⟨w', hread, hw'⟩ := readMember_ok file hw hfield hv (.closeMapping :: ts)
    refine ⟨w', ?_, hw'⟩
    rw [memberTokens, List.cons_append, List.cons_append, readMembers_cons, hread]
    exact readMembers_closeMapping file false ts
  | (k, v) :: m :: ms, _, h => by
    obtain ⟨⟨hfield, hv⟩, hrest⟩ := List.forall_mem_cons.1 h
    obtain ⟨w₁, hread, hw₁⟩ := readMember_ok file hw hfield hv
      (separator false ++ (memberTokens (m :: ms) ++ .closeMapping :: ts))
    obtain ⟨w', hmore, hw'⟩ := readMembers_ok false ts hw₁ (m :: ms) (List.cons_ne_nil _ _) hrest
    refine ⟨w', ?_, hw'⟩
    rw [Json.memberTokens_cons_cons, List.cons_append, List.cons_append, List.append_assoc,
      readMembers_cons]
    exact (congrArg (Except.bind · _) hread).trans hmore

theorem readMembers_refused (first : Bool) (ts : List Token) {w : Wrapper}
    {members : Entries String Value} (hw : w.Holds members) : ∀ ms : List (String × Value),
    (∃ m ∈ ms, ¬ (IsField m ∧ m.2.isInRange = true)) →
      ∃ p, readMembers file first w (separator first ++ (memberTokens ms ++ ts)) =
        .error (.wrongShape file p)
  | [], h => by simp at h
  | [(k, v)], h => by
    obtain ⟨p, hp⟩ := readMember_refused file (by simpa using h) ts
    refine ⟨p, ?_⟩
    rw [memberTokens, List.cons_append, List.cons_append, readMembers_cons, hp]
    rfl
  | (k, v) :: m :: ms, h => by
    rw [Json.memberTokens_cons_cons, List.cons_append, List.cons_append, List.append_assoc,
      readMembers_cons]
    by_cases hm : IsField (k, v) ∧ v.isInRange = true
    · have hrest : ∃ x ∈ m :: ms, ¬ (IsField x ∧ x.2.isInRange = true) := by
        obtain ⟨x, hx, hnot⟩ := h
        rcases List.mem_cons.1 hx with rfl | hx
        · exact absurd hm hnot
        · exact ⟨x, hx, hnot⟩
      obtain ⟨w₁, hread, hw₁⟩ := readMember_ok file hw hm.1 hm.2
        (separator false ++ (memberTokens (m :: ms) ++ ts))
      obtain ⟨p, hp⟩ := readMembers_refused false ts hw₁ (m :: ms) hrest
      exact ⟨p, (congrArg (Except.bind · _) hread).trans hp⟩
    · obtain ⟨p, hp⟩ := readMember_refused file hm
        (separator false ++ (memberTokens (m :: ms) ++ ts))
      exact ⟨p, congrArg (Except.bind · _) hp⟩

theorem readMembers_mapping {ms : List (String × Value)}
    (h : ∀ m ∈ ms, IsField m ∧ m.2.isInRange = true) :
    ∃ w, readMembers file true ⟨none, none⟩ (memberTokens ms ++ [.closeMapping]) = .ok (w, []) ∧
      w.Holds (Entries.ofPairs (Value.membersWithoutRepeats ms)) := by
  cases ms with
  | nil => exact ⟨_, readMembers_closeMapping file true [], rfl, rfl⟩
  | cons m ms => exact readMembers_ok file true [] ⟨rfl, rfl⟩ (m :: ms) (List.cons_ne_nil _ _) h

/-! ## The whole text -/

/-- The array that a text gives is read, with the path. -/
theorem readTree_ok {written array : Value} {path : Option String}
    (hrange : written.isInRange = true) (h : Gives written array path) :
    readTree file (valueTokens written) = .ok (array, path, []) := by
  cases h with
  | bare items =>
    have hread := readAny_of_isInRange file "$" hrange []
    rw [List.append_nil, valueTokens] at hread
    rw [valueTokens, readTree, hread]
    rfl
  | @wrapped ms members _ hfields hvalue htree =>
    cases hvalue
    obtain ⟨w, hread, hw⟩ := readMembers_mapping file fun m hm =>
      ⟨hfields m hm, Value.isInRange_mapping.1 hrange m hm⟩
    rw [valueTokens, readTree, hread]
    simp only [hw.tree.trans htree, hw.path]

/-- A text that gives no array, or has a number out of range, is refused. -/
theorem readTree_refused {written : Value}
    (hnot : ¬ (written.isInRange = true ∧ ∃ array path, Gives written array path)) :
    ∃ p, readTree file (valueTokens written) = .error (.wrongShape file p) := by
  cases written with
  | list items =>
    have hrange : (Value.list items).isInRange = false := by
      by_contra hrange
      exact hnot ⟨by simpa using hrange, _, _, .bare items⟩
    obtain ⟨p, hp⟩ := readAny_notInRange file "$" hrange []
    rw [List.append_nil, valueTokens] at hp
    exact ⟨p, by rw [valueTokens, readTree, hp]; rfl⟩
  | mapping ms =>
    by_cases hall : ∀ m ∈ ms, IsField m ∧ m.2.isInRange = true
    -- all members are read, but none of them is a tree
    · obtain ⟨w, hread, hw⟩ := readMembers_mapping file hall
      have hnone : w.tree = none := by
        cases htree : w.tree with
        | none => rfl
        | some array =>
          have hgives := Gives.wrapped (fun m hm => (hall m hm).1) rfl (hw.tree.symm.trans htree)
          have hrange := Value.isInRange_mapping.2 fun m hm => (hall m hm).2
          exact absurd ⟨hrange, _, _, hgives⟩ hnot
      refine ⟨.missingTree, ?_⟩
      rw [valueTokens, readTree, hread]
      simp only [hnone]
    · obtain ⟨m, hm, hbad⟩ : ∃ m ∈ ms, ¬ (IsField m ∧ m.2.isInRange = true) := by
        simpa using hall
      have hempty : Wrapper.Holds ⟨none, none⟩ [] := ⟨rfl, rfl⟩
      obtain ⟨p, hp⟩ := readMembers_refused file true [.closeMapping] hempty ms ⟨m, hm, hbad⟩
      have hread : readMembers file true ⟨none, none⟩ (memberTokens ms ++ [.closeMapping]) =
          .error (.wrongShape file p) := hp
      exact ⟨p, by rw [valueTokens, readTree, hread]⟩
  | _ => exact refused_of_mismatch rfl nofun

theorem Gives.exists_items {written array : Value} {path : Option String}
    (h : Gives written array path) : ∃ items, array = .list items := by
  cases h with
  | bare items => exact ⟨_, rfl⟩
  | @wrapped ms members _ hfields hvalue htree =>
    cases hvalue
    have hput := (Entries.mem_foldl_put _ [] (Entries.mem_of_get? htree)).resolve_left nofun
    rw [Value.membersWithoutRepeats_eq_map] at hput
    obtain ⟨⟨k, v⟩, hm, heq⟩ := List.mem_map.1 hput
    cases heq
    obtain ⟨items, rfl⟩ := (hfields _ hm).exists_items
    exact ⟨_, rfl⟩

theorem rootOfValue_list (items : List Value) :
    Node.rootOfValue (.list items) = Node.ofValue [] (.list items) := by
  unfold Node.rootOfValue
  split
  · rename_i s htext
    cases Node.toValue_ofValue _ _ _ htext
  · rfl

/-! ## The file -/

section
variable {content : List Text.Symbol} {written array : Value} {path : Option String}

theorem read_of_gives (h : Json.tokens content = valueTokens written)
    (hrange : written.isInRange = true) (hgives : Gives written array path) :
    read file content =
      (Node.ofValue [] array).map fun root => (root, (path.filter (· ≠ "")).getD file) := by
  obtain ⟨items, rfl⟩ := hgives.exists_items
  rw [read, h, readTree_ok file hrange hgives]
  simp only [rootOfValue_list]
  cases Node.ofValue [] (.list items) <;> rfl

theorem read_refused (h : Json.tokens content = valueTokens written)
    (hnot : ¬ (written.isInRange = true ∧ ∃ array path, Gives written array path)) :
    ∃ p, read file content = .error (.wrongShape file p) := by
  obtain ⟨p, hp⟩ := readTree_refused file hnot
  exact ⟨p, by rw [read, h, hp]⟩

/-- A text is read as a tree file if all its numbers are in range, it gives an array, and the
array is a tree. The root is that tree, and the module is the path that the text gives, or the
file if it gives none or an empty one. Of every other text its shape is reported, or a part of it
that is not shaped as a node. -/
theorem read_accepts (h : Json.tokens content = valueTokens written) :
    ((∃ r, read file content = .ok r) ↔
      written.isInRange = true ∧ ∃ array path, Gives written array path ∧ array.IsTree) ∧
    (∀ root module, read file content = .ok (root, module) →
      ∃ array path, Gives written array path ∧ Node.ofValue [] array = .ok root ∧
        module = (path.filter (· ≠ "")).getD file) ∧
    (∀ f, read file content = .error f →
      (∃ problem, f = .wrongShape file problem) ∨ ∃ bad trail, f = .notANode bad trail) := by
  by_cases hgives : written.isInRange = true ∧ ∃ array path, Gives written array path
  · obtain ⟨hrange, array, path, hgives⟩ := hgives
    have hread := read_of_gives file h hrange hgives
    refine ⟨⟨?_, ?_⟩, ?_, ?_⟩
    · rintro ⟨r, hr⟩
      obtain ⟨root, hroot, -⟩ := map_eq_ok (hread.symm.trans hr)
      exact ⟨hrange, array, path, hgives, Node.isTree_of_ofValue hroot⟩
    · rintro ⟨-, array, path, hgives, htree⟩
      obtain ⟨root, hroot⟩ := Node.ofValue_of_isTree htree []
      exact ⟨_, by rw [read_of_gives file h hrange hgives, hroot]; rfl⟩
    · intro root module hr
      obtain ⟨root', hroot, heq⟩ := map_eq_ok (hread.symm.trans hr)
      cases heq
      exact ⟨array, path, hgives, hroot, rfl⟩
    · intro f hf
      rw [hread] at hf
      cases hroot : Node.ofValue [] array with
      | ok root =>
        rw [hroot] at hf
        cases hf
      | error f' =>
        rw [hroot] at hf
        cases hf
        obtain ⟨names, bad, ⟨address, hbad, -⟩, rfl⟩ := Node.ofValue_error hroot
        -- no number of a file is too long to be told
        have harray := isStorable_readTree (Json.isSound_tokens content)
          ((congrArg (readTree file) h).trans (readTree_ok file hrange hgives))
        have hwritable := Value.isWritable_of_isStorable (Value.isStorable_lookUp hbad harray)
        exact .inr ⟨bad, _, if_pos hwritable⟩
  · obtain ⟨p, hp⟩ := read_refused file h hgives
    refine ⟨⟨?_, ?_⟩, ?_, ?_⟩
    · rintro ⟨r, hr⟩
      cases hp.symm.trans hr
    · rintro ⟨hrange, array, path, hgiven, -⟩
      exact absurd ⟨hrange, array, path, hgiven⟩ hgives
    · intro root module hr
      cases hp.symm.trans hr
    · intro f hf
      cases hp.symm.trans hf
      exact .inl ⟨p, rfl⟩

/-- A wrapped tree with an empty path is read, and its module is the file. -/
theorem read_accepts_empty_path :
    ∃ root, read "a.json"
      (Text.symbols "\x7b\"path\": \"\", \"tree\": [\"Document\", \x7b\x7d]\x7d") =
        .ok (root, "a.json") := by
  let tree := Value.list [.text "Document", .mapping []]
  have htokens : Json.tokens (Text.symbols
      "\x7b\"path\": \"\", \"tree\": [\"Document\", \x7b\x7d]\x7d") =
        valueTokens (.mapping [("path", .text ""), ("tree", tree)]) := by
    decide +kernel
  have hfields : ∀ m ∈ [("path", .text ""), ("tree", tree)], IsField m := by
    simp [tree, IsField.tree, IsField.path]
  have hgives := Gives.wrapped hfields rfl rfl
  obtain ⟨hok, hread, -⟩ := read_accepts "a.json" htokens
  obtain ⟨⟨root, module⟩, hr⟩ := hok.2 ⟨by decide, tree, _, hgives, .element _ _ nofun⟩
  obtain ⟨array, path, hgives', -, rfl⟩ := hread root module hr
  cases hgives' with
  | wrapped _ hvalue _ =>
    cases hvalue
    exact ⟨root, hr⟩

/-- A number that is too great for a double is refused, though it stands in the attributes of a
tree. So is a `tree` that is no array, though another one that is a tree comes after it. -/
theorem great_number_and_repeated_member_are_refused :
    (let content := Text.symbols
        "[\"Document\", \x7b\"x\": 1e999\x7d, [\"head3\", \x7b\x7d, \"GET /a\"]]"
      let written := Value.list [.text "Document", .mapping [("x", .real (.infinite false))],
        .list [.text "head3", .mapping [], .text "GET /a"]]
      Json.tokens content = valueTokens written ∧ written.IsTree ∧
        ∃ problem, read "a.json" content = .error (.wrongShape "a.json" problem)) ∧
    (let content := Text.symbols "\x7b\"tree\": null, \"tree\": [\"Document\", \x7b\x7d]\x7d"
      let tree := Value.list [.text "Document", .mapping []]
      let written := Value.mapping [("tree", .null), ("tree", tree)]
      Json.tokens content = valueTokens written ∧
        written.withoutRepeats = .mapping [("tree", tree)] ∧ tree.IsTree ∧
        ∃ problem, read "a.json" content = .error (.wrongShape "a.json" problem)) := by
  constructor
  · intro content written
    have htokens : Json.tokens content = valueTokens written := by decide +kernel
    have htree : written.IsTree := by
      refine .element _ _ fun v hv => ?_
      rw [List.mem_singleton.1 hv]
      refine .element _ _ fun w hw => ?_
      rw [List.mem_singleton.1 hw]
      exact .text _
    exact ⟨htokens, htree, read_refused _ htokens fun h => absurd h.1 (by decide)⟩
  · intro content tree written
    have htokens : Json.tokens content = valueTokens written := by decide +kernel
    refine ⟨htokens, rfl, .element _ _ nofun, read_refused _ htokens ?_⟩
    rintro ⟨-, array, path, hgives⟩
    obtain ⟨items, hnull⟩ := (hgives.isField ("tree", .null) List.mem_cons_self).exists_items
    cases hnull

end

end TreeFile

end RouteDocs
