import RouteDocs.Proofs.EveryElement
import RouteDocs.Proofs.Json.RoundTrip
import RouteDocs.Proofs.NestedLists
import RouteDocs.Proofs.Text.Utf8
import RouteDocs.TreeFile

/-!
# Tree files that are read and written

A tree that is read from a file has attributes that a file can hold, and a tree
with such attributes is read back from the file that it is written to. Its
module is then the file.

Results:
* `isStorable_toValue`: a tree can be stored if the attributes of all its elements can be.
* `isWritable_of_isStorable`: what can be stored can be written.
* `storable_of_read`, `writable_of_read`: the attributes of a tree that was read can be stored,
  and shown.
* `read_write`: a tree that was written is read back.
* `written_file_is_read_back`: a file that a tree was written to holds the tree, unless an
  integer in it is too long.
-/
namespace RouteDocs

namespace Node

/-! ## Trees as values -/

/-- Attributes that a file can hold. -/
def storable (_name : String) (as : Attributes) : Bool :=
  (Value.mapping as).isStorable

mutual

theorem isStorable_toValue : ∀ n : Node, n.toValue.isStorable = n.every storable
  | .text s => rfl
  | .element name as cs => by
    rw [toValue, every, Value.isStorable, Value.areStorable, Value.areStorable,
      areStorable_toValues cs]
    rfl

theorem areStorable_toValues : ∀ ns : List Node,
    Value.areStorable (toValues ns) = everyAll storable ns
  | [] => rfl
  | n :: rest => by
    rw [toValues, everyAll, Value.areStorable, isStorable_toValue n, areStorable_toValues rest]

end

end Node

/-! ## Parts of a file -/

namespace Value

/-- The numbers of a file have no more digits than can be written. -/
theorem isWritable_of_isTooLong {n : ℤ} (h : Json.isTooLong n = false) :
    Numeral.isWritable n = true := by
  have hlength : (if n < 0 then 4299 else 4300) ≤ Numeral.maxDigits := by split <;> decide
  rw [Json.isTooLong, decide_eq_false_iff_not, not_le, Nat.pow_eq] at h
  rw [Numeral.isWritable_iff, Nat.pow_eq]
  exact h.trans_le (Nat.pow_le_pow_right (by decide) hlength)

theorem isWritable_of_isStorable {v : Value} (h : v.isStorable = true) : v.isWritable = true := by
  induction isJson_of_isStorable v h with
  | null => rfl
  | bool b => rfl
  | int n => exact isWritable_of_isTooLong (by simpa [isStorable] using h)
  | real _ => rfl
  | text s => rfl
  | list _ ih => exact isWritable_list.2 fun v hv => ih v hv (isStorable_list.1 h v hv)
  | mapping _ _ ih =>
    exact isWritable_mapping.2 fun m hm => ih m hm ((isStorable_mapping.1 h).2 m hm)

/-- What is in an element that can be stored can be. -/
theorem isStorable_lookUp {address : List Nat} {v w : Value} {names : List String}
    (h : v.lookUp address = some (names, w)) (hv : v.isStorable = true) : w.isStorable = true := by
  induction address generalizing v names with
  | nil =>
    cases h
    exact hv
  | cons i below ih =>
    unfold lookUp at h
    split at h
    · contradiction
    · rename_i name as rest heq
      obtain ⟨rfl, rfl⟩ := List.cons.inj heq
      obtain ⟨child, hchild, h⟩ := Option.bind_eq_some_iff.1 h
      obtain ⟨⟨around, w'⟩, hw, heq⟩ := Option.map_eq_some_iff.1 h
      cases heq
      exact ih hw (isStorable_list.1 hv child (by simp [List.mem_of_getElem? hchild]))
    · cases h

end Value

namespace TreeFile

open Json (Token valueTokens itemTokens)

/-! ## What is read -/

section
variable {file : String} {ts rest : List Token}

def Wrapper.IsSound (w : Wrapper) : Prop := ∀ v, w.tree = some v → v.isStorable = true

theorem isStorable_readAny {base : String} {v : Value} (hts : ∀ t ∈ ts, t.isSound = true)
    (h : readAny file base ts = .ok (v, rest)) :
    v.isStorable = true ∧ ∀ t ∈ rest, t.isSound = true := by
  unfold readAny at h
  split at h
  · rename_i r hr
    cases h
    exact Json.isStorable_readValue hts hr
  · cases h

theorem isSound_readMember {w w' : Wrapper} {key : Option String} (hw : w.IsSound)
    (hts : ∀ t ∈ ts, t.isSound = true) (h : readMember file w key ts = .ok (w', rest)) :
    w'.IsSound ∧ ∀ t ∈ rest, t.isSound = true := by
  unfold readMember at h
  split at h
  · cases h
  · rename_i r
    cases ha : readAny file "$.tree" (.openList :: r) with
    | error f =>
      rw [ha] at h
      cases h
    | ok p =>
      obtain ⟨v, r'⟩ := p
      obtain ⟨hv, hrest⟩ := isStorable_readAny hts ha
      rw [ha] at h
      cases h
      refine ⟨fun v' hv' => ?_, hrest⟩
      cases hv'
      exact hv
  · cases h
  · cases h
    exact ⟨hw, (List.forall_mem_cons.1 hts).2⟩
  · cases h
    exact ⟨hw, (List.forall_mem_cons.1 hts).2⟩
  all_goals cases h

theorem isSound_readMembers {first : Bool} {w w' : Wrapper} (hw : w.IsSound)
    (hts : ∀ t ∈ ts, t.isSound = true) (h : readMembers file first w ts = .ok (w', rest)) :
    w'.IsSound := by
  fun_induction readMembers file first w ts with
  | case1 =>
    cases h
    exact hw
  | case3 w key ts w₁ ts₁ hmember ih =>
    have hmore : ∀ t ∈ ts, t.isSound = true := fun t ht =>
      hts t (List.mem_cons_of_mem _ (List.mem_cons_of_mem _ ht))
    obtain ⟨hw₁, hts₁⟩ := isSound_readMember hw hmore hmember
    exact ih hw₁ hts₁ h
  | case7 first w key ts hnext w₁ ts₁ hmember ih =>
    have hmore : ∀ t ∈ ts, t.isSound = true := fun t ht =>
      hts t (List.mem_cons_of_mem _ (List.mem_cons_of_mem _ (List.mem_cons_of_mem _ ht)))
    obtain ⟨hw₁, hts₁⟩ := isSound_readMember hw hmore hmember
    exact ih hw₁ hts₁ h
  | case2 => cases h
  | case4 => cases h
  | case5 => cases h
  | case6 => cases h
  | case8 => cases h

theorem isStorable_readTree {v : Value} {path : Option String} (hts : ∀ t ∈ ts, t.isSound = true)
    (h : readTree file ts = .ok (v, path, rest)) : v.isStorable = true := by
  unfold readTree at h
  split at h
  · rename_i more
    cases hany : readAny file "$" (.openList :: more) with
    | error f =>
      rw [hany] at h
      cases h
    | ok p =>
      rw [hany] at h
      cases h
      exact (isStorable_readAny hts hany).1
  · rename_i more
    split at h
    · cases h
    · rename_i w after hmembers
      split at h
      · rename_i tree htree
        cases h
        have hnone : Wrapper.IsSound ⟨none, none⟩ := fun v hv => nomatch hv
        exact isSound_readMembers hnone (List.forall_mem_cons.1 hts).2 hmembers _ htree
      · cases h
  · cases h
  · cases h

end

/-- The root of a tree that was read is an element, and the attributes of all elements can be
stored. -/
theorem storable_of_read {file module : String} {content : List Text.Symbol} {root : Node}
    (h : read file content = .ok (root, module)) :
    (∃ name as cs, root = .element name as cs) ∧ root.every Node.storable = true := by
  unfold read at h
  split at h
  · cases h
  · cases h
  · rename_i v path htree
    have hv := isStorable_readTree (Json.isSound_tokens content) htree
    split at h
    · cases h
    · rename_i root' hroot
      cases h
      obtain ⟨hvalue, hname⟩ := Node.rootOfValue_ok hroot
      rw [← Node.isStorable_toValue, hvalue]
      exact ⟨hname, hv⟩

/-- No number in a tree that was read is too long to be shown. -/
theorem writable_of_read {file module : String} {content : List Text.Symbol} {root : Node}
    (h : read file content = .ok (root, module)) : root.every Node.writable = true :=
  Node.every_mono (fun _ _ => Value.isWritable_of_isStorable) root (storable_of_read h).2

/-! ## What is written -/

section
variable {name : String} {as : Attributes} {cs : List Node} {tail : String}

theorem readTree_write (file : String) (hjson : (Node.element name as cs).toValue.IsJson)
    (htail : tail = "" ∨ tail = "\n") :
    readTree file (Json.tokens (Text.symbols (write (.element name as cs) ++ tail))) =
      (readAny file "$" (valueTokens (Node.element name as cs).toValue)).map
        fun (v, rest) => (v, none, rest) := by
  rw [write, Json.tokens_write hjson htail, Node.toValue, valueTokens]
  rfl

/-- A tree that was written, alone or with the end of a line, is read back. The file is its
module. -/
theorem read_write (file : String) (h : (Node.element name as cs).every Node.storable = true)
    (htail : tail = "" ∨ tail = "\n") :
    read file (Text.symbols (write (.element name as cs) ++ tail)) =
      .ok (.element name as cs, file) := by
  rw [← Node.isStorable_toValue] at h
  rw [read, readTree_write file (Value.isJson_of_isStorable _ h) htail, readAny,
    Json.readValue_valueTokens h]
  simp only [Except.map, Node.rootOfValue_toValue]
  rfl

theorem read_write_tooLong (file : String) (hjson : (Node.element name as cs).toValue.IsJson)
    (hlong : (Node.element name as cs).every Node.storable = false)
    (htail : tail = "" ∨ tail = "\n") :
    ∃ place, read file (Text.symbols (write (.element name as cs) ++ tail)) =
      .error (.wrongShape file (.intTooLong place)) := by
  rw [← Node.isStorable_toValue] at hlong
  obtain ⟨place, hplace⟩ := Json.readValue_tooLong hjson hlong
  refine ⟨"$" ++ placeText place, ?_⟩
  rw [read, readTree_write file hjson htail, readAny, hplace]
  rfl

/-! ## Files -/

theorem symbolsOfBytes_write (root : Node) :
    Text.symbolsOfBytes (write root).toUTF8.toList = Text.symbols (write root ++ "") := by
  rw [String.append_empty, Text.symbolsOfBytes_utf8]

/-- A tree that was written to a file is read from the file as it was, unless one of its integers
is too long: then the file is refused. -/
theorem written_file_is_read_back (file name : String) (as : Attributes) (cs : List Node) :
    let root := Node.element name as cs
    let content := Text.symbolsOfBytes (write root).toUTF8.toList
    (root.every Node.storable = true →
      ∃ loaded, read file content = .ok (loaded, file) ∧ loaded = root ∧
        write loaded = write root) ∧
    (root.toValue.IsJson → root.every Node.storable = false →
      ∃ place, read file content = .error (.wrongShape file (.intTooLong place))) := by
  intro root content
  have hcontent : content = Text.symbols (write root ++ "") := symbolsOfBytes_write root
  rw [hcontent]
  constructor
  · intro h
    exact ⟨root, read_write file h (.inl rfl), rfl, rfl⟩
  · intro hjson hlong
    exact read_write_tooLong file hjson hlong (.inl rfl)

/-- A tree with escaped and other characters, empty and nested lists and mappings. -/
theorem written_file_is_read_back_of_escapes :
    let root := Node.element "Document"
      [("title", .text "\"Wörter\"\n\x00"), ("n", .int (-5)), ("list", .list []),
        ("nested", .mapping [("", .list [.null, .bool true, .mapping []])])]
      [.text "\\", .element "Para" [] []]
    ∃ loaded, read "a.json" (Text.symbolsOfBytes (write root).toUTF8.toList) =
        .ok (loaded, "a.json") ∧ loaded = root ∧ write loaded = write root :=
  (written_file_is_read_back "a.json" _ _ _).1 (by decide +kernel)

/-- An integer of 4301 digits is written and not read. -/
theorem file_with_long_integer_is_refused :
    let root := Node.element "Document" [("n", .int (10 ^ 4300 : Nat))] []
    root.toValue.IsJson ∧
      ∃ place, read "w.json" (Text.symbolsOfBytes (write root).toUTF8.toList) =
        .error (.wrongShape "w.json" (.intTooLong place)) := by
  intro root
  have hjson : root.toValue.IsJson := by
    refine .list fun v hv => ?_
    rcases List.mem_pair.1 hv with rfl | rfl
    · exact .text _
    · refine .mapping (by decide) fun m hm => ?_
      rw [List.mem_singleton.1 hm]
      exact .int _
  have hlong : root.every Node.storable = false := by decide +kernel
  rw [symbolsOfBytes_write]
  exact ⟨hjson, read_write_tooLong "w.json" hjson hlong (.inl rfl)⟩

end

end TreeFile

end RouteDocs
