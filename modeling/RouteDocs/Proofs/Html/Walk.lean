import Mathlib.Data.List.Chain
import RouteDocs.Html.PlainHighlighter
import RouteDocs.Proofs.Bind
import RouteDocs.Proofs.Html.Layout

/-!
# The walk of a rendering

A rendering walks the tree from the root down: to the children of an element,
in a definition list to the children of each term and to its definition, in an
element of an unknown kind to the first child alone. It fails where the walk
meets an element of an unknown kind without children, and the failure names
the elements that the walk has entered. The terms of a definition list are
passed without being entered, so these names are those on the path to the
element exactly if no term is passed.

Results:
* `isChain_of_mem_walk`: the walk goes from each element to a child of it.
* `render_finds`: a rendering that ends well has met no element that cannot be shown; one that
  fails to show an element has met it first.
* `trail_of_unrenderable`: which element it is and which names the failure gives.
-/
namespace RouteDocs

namespace Node

def name? : Node → Option String
  | .text _ => none
  | .element name _ _ => some name

end Node

namespace Html

open DefinitionList (termPairs marker? isContent isContent_iff)

/-! ## The walk -/

namespace Visit

/-- The nodes from the one that the visit starts from to the one that it is to. -/
def path (v : Visit) : List Node :=
  v.above ++ [v.node]

/-- A visit, as one that starts further up. -/
def beneath (outer : List Node) (v : Visit) : Visit :=
  ⟨outer ++ v.above, v.node⟩

theorem path_beneath (outer : List Node) (v : Visit) :
    (v.beneath outer).path = outer ++ v.path :=
  List.append_assoc ..

def row (above ns : List Node) : List Visit :=
  ns.map fun n => ⟨above, n⟩

theorem mem_row {above ns : List Node} {v : Visit} (h : v ∈ row above ns) :
    v.above = above ∧ v.node ∈ ns := by
  obtain ⟨n, hn, rfl⟩ := List.mem_map.1 h
  exact ⟨rfl, hn⟩

/-- Visits to the children of a term and to the nodes of its definition. -/
def ofTerm (p : TermPair) : List Visit :=
  row [p.marker] p.label ++ row [] p.definition

end Visit

namespace Renderer

/-- The next visits from an element. -/
def steps (r : Renderer) (name : String) (cs : List Node) : List Visit :=
  if isForeign name then Visit.row [] (cs.take 1)
  else
    match Kind.ofName? name with
    | some .definitionList => (termPairs cs).flatMap Visit.ofTerm
    | some .verbatim =>
      match r.config.verbatimLanguage.filter (· ≠ "") with
      | none => Visit.row [] cs
      | some _ => []
    | _ => Visit.row [] cs

theorem marker_mem {cs : List Node} {p : TermPair} (h : p ∈ termPairs cs) :
    .element Kind.term.name p.attributes p.label ∈ cs :=
  DefinitionList.mem_of_mem_nodes h List.mem_cons_self

/-- A visit from an element is to a child that is no term of a definition list, or it passes such a
term and is to a child of the term. -/
theorem mem_steps {r : Renderer} {name : String} {cs : List Node} {v : Visit}
    (h : v ∈ r.steps name cs) :
    (v.above = [] ∧ v.node ∈ cs ∧ (name = Kind.definitionList.name → v.node.isA .term = false)) ∨
      name = Kind.definitionList.name ∧ ∃ as ls,
        v.above = [.element Kind.term.name as ls] ∧ .element Kind.term.name as ls ∈ cs ∧
          v.node ∈ ls := by
  have hrow : ∀ ns : List Node, v ∈ Visit.row [] ns → (∀ n ∈ ns, n ∈ cs) →
      name ≠ Kind.definitionList.name → v.above = [] ∧ v.node ∈ cs ∧
        (name = Kind.definitionList.name → v.node.isA .term = false) := by
    intro ns hv hns hname
    obtain ⟨habove, hnode⟩ := Visit.mem_row hv
    exact ⟨habove, hns _ hnode, fun h => absurd h hname⟩
  rw [steps] at h
  split at h
  case isTrue hforeign =>
    refine .inl (hrow _ h (fun n => List.mem_of_mem_take) ?_)
    rintro rfl
    exact absurd hforeign (by decide)
  case isFalse =>
    split at h
    case h_1 hk =>
      obtain ⟨p, hp, hv⟩ := List.mem_flatMap.1 h
      rcases List.mem_append.1 hv with hv | hv
      · obtain ⟨habove, hnode⟩ := Visit.mem_row hv
        exact .inr ⟨Kind.ofName?_eq_some_iff.1 hk, _, _, habove, marker_mem hp, hnode⟩
      · obtain ⟨habove, hnode⟩ := Visit.mem_row hv
        exact .inl ⟨habove, DefinitionList.mem_of_mem_definition hp hnode,
          fun _ => isContent_iff.1 (DefinitionList.isContent_of_mem_definition hp _ hnode)⟩
    case h_2 hk =>
      have hname : name ≠ Kind.definitionList.name := by
        rintro rfl
        exact absurd hk (by decide)
      split at h
      · exact .inl (hrow _ h (fun n => id) hname)
      · cases h
    case h_3 hk _ =>
      exact .inl (hrow _ h (fun n => id) fun hname => hk (Kind.ofName?_eq_some_iff.2 hname))

theorem sizeOf_lt_of_mem_steps {r : Renderer} {name : String} {cs : List Node} {v : Visit}
    (h : v ∈ r.steps name cs) (as : Attributes) : sizeOf v.node < sizeOf (Node.element name as cs) := by
  rw [Node.element.sizeOf_spec]
  rcases mem_steps h with ⟨_, hv, _⟩ | ⟨_, bs, ls, _, hterm, hv⟩
  · have hlt := List.sizeOf_lt_of_mem hv
    omega
  · have hlt := List.sizeOf_lt_of_mem hv
    have hlt' := List.sizeOf_lt_of_mem hterm
    rw [Node.element.sizeOf_spec] at hlt'
    omega

/-- The nodes that a rendering meets, in the order in which it meets them. -/
def walk (r : Renderer) : Node → List Visit
  | .text s => [⟨[], .text s⟩]
  | .element name as cs =>
    ⟨[], .element name as cs⟩ :: (r.steps name cs).attach.flatMap fun v =>
      (walk r v.1.node).map (Visit.beneath (.element name as cs :: v.1.above))
termination_by n => sizeOf n
decreasing_by exact sizeOf_lt_of_mem_steps v.2 as

theorem walk_element (r : Renderer) (name : String) (as : Attributes) (cs : List Node) :
    r.walk (.element name as cs) =
      ⟨[], .element name as cs⟩ :: (r.steps name cs).flatMap fun v =>
        (r.walk v.node).map (Visit.beneath (.element name as cs :: v.above)) := by
  rw [walk, List.flatMap_def, List.flatMap_def]
  exact congrArg (_ :: List.flatten ·) (List.attach_map_val (f := fun (v : Visit) =>
    (r.walk v.node).map (Visit.beneath (.element name as cs :: v.above))))

/-- Induction along the walk. -/
theorem walk_induction (r : Renderer) {motive : Node → Prop} (text : ∀ s, motive (.text s))
    (element : ∀ name as cs, (∀ v ∈ r.steps name cs, motive v.node) →
      motive (.element name as cs)) (n : Node) : motive n := by
  cases n with
  | text s => exact text s
  | element name as cs =>
    exact element name as cs fun v _ => walk_induction r text element v.node
termination_by sizeOf n
decreasing_by exact sizeOf_lt_of_mem_steps ‹_› as

/-- The first element of the walk that cannot be shown. -/
def firstUnshowable (r : Renderer) (n : Node) : Option Visit :=
  (r.walk n).find? fun v => isUnshowable v.node

/-- The first element that cannot be shown and that the walk meets from the next visits on. -/
def firstFrom (r : Renderer) (vs : List Visit) : Option Visit :=
  vs.findSome? fun v => (r.firstUnshowable v.node).map (Visit.beneath v.above)

theorem firstFrom_cons (r : Renderer) (v : Visit) (rest : List Visit) :
    r.firstFrom (v :: rest) =
      ((r.firstUnshowable v.node).map (Visit.beneath v.above)).or (r.firstFrom rest) := by
  rw [firstFrom, List.findSome?_cons]
  cases (r.firstUnshowable v.node).map (Visit.beneath v.above) <;> rfl

theorem firstUnshowable_text (r : Renderer) (s : String) : r.firstUnshowable (.text s) = none := by
  rw [firstUnshowable, walk]
  rfl

theorem firstUnshowable_element (r : Renderer) (name : String) (as : Attributes) (cs : List Node) :
    r.firstUnshowable (.element name as cs) =
      if isUnshowable (.element name as cs) then some ⟨[], .element name as cs⟩
      else (r.firstFrom (r.steps name cs)).map (Visit.beneath [.element name as cs]) := by
  have hbelow : ∀ v : Visit,
      ((r.walk v.node).map (Visit.beneath (.element name as cs :: v.above))).find?
          (fun v => isUnshowable v.node) =
        ((r.firstUnshowable v.node).map (Visit.beneath v.above)).map
          (Visit.beneath [.element name as cs]) := by
    intro v
    rw [List.find?_map, Option.map_map]
    rfl
  rw [firstUnshowable, walk_element, List.find?_cons]
  cases h : isUnshowable (.element name as cs) with
  | true => rfl
  | false =>
    rw [if_neg Bool.false_ne_true, firstFrom, List.find?_flatMap, List.map_findSome?]
    exact congrArg (List.findSome? · _) (funext hbelow)

/-! ## The nodes of a layout -/

end Renderer

/-- The nodes among the pieces. -/
def Piece.visits : Piece → List Visit
  | .node v => [v]
  | _ => []

namespace Renderer

theorem visits_shownBelow (above ns : List Node) :
    (shownBelow above ns).flatMap Piece.visits = Visit.row above ns := by
  rw [shownBelow, List.flatMap_map, Visit.row, List.map_eq_flatMap]
  rfl

theorem visits_tagged (tag : String) (html : Except Fault (Option Value)) (as : Attributes)
    (inner : List Piece) :
    (tagged tag html as inner).flatMap Piece.visits = inner.flatMap Piece.visits := by
  simp [tagged, Piece.visits]

theorem visits_onLines (inner : List Piece) :
    (onLines inner).flatMap Piece.visits = inner.flatMap Piece.visits := by
  simp [onLines, Piece.visits]

theorem visits_termPieces (p : TermPair) :
    (termPieces p).flatMap Piece.visits = Visit.ofTerm p := by
  simp [termPieces, definitionPieces, taggedOwn, visits_tagged, visits_shownBelow, Visit.ofTerm,
    Piece.visits]

theorem visits_layout (r : Renderer) (name : String) (as : Attributes) (cs : List Node) :
    (r.layout name as cs).flatMap Piece.visits = r.steps name cs := by
  have hchildren := visits_shownBelow [] cs
  rw [layout.eq_def, steps, isForeign.eq_def]
  cases hk : Kind.ofName? name with
  | none => cases cs <;> rfl
  | some k =>
    cases k with
    | term | directive | data => cases cs <;> rfl
    | document => exact hchildren
    | head1 | head2 | head3 | head4 => exact (visits_onLines _).trans ((visits_tagged ..).trans hchildren)
    | paragraph | italic | bold | code | link => exact (visits_tagged ..).trans hchildren
    | verbatim =>
      dsimp only
      cases r.config.verbatimLanguage.filter (· ≠ "") with
      | none => exact (visits_tagged ..).trans hchildren
      | some language => rfl
    | definitionList =>
      simp [List.flatMap_assoc, visits_termPieces, Piece.visits]

/-! ## The way to a node -/

theorem head?_path {r : Renderer} {n : Node} {v : Visit} (h : v ∈ r.walk n) :
    v.path.head? = some n := by
  cases n with
  | text s =>
    rw [walk, List.mem_singleton] at h
    rw [h]
    rfl
  | element name as cs =>
    rw [walk_element, List.mem_cons, List.mem_flatMap] at h
    rcases h with rfl | ⟨u, _, h⟩
    · rfl
    · obtain ⟨w, _, rfl⟩ := List.mem_map.1 h
      rfl

/-- The walk goes from each element to a child of it. -/
theorem isChain_of_mem_walk (r : Renderer) (n : Node) :
    ∀ v ∈ r.walk n, v.path.IsChain fun outer inner => inner ∈ outer.children := by
  induction n using walk_induction r with
  | text s =>
    rw [walk, List.forall_mem_singleton]
    exact List.isChain_singleton _
  | element name as cs ih =>
    rw [walk_element, List.forall_mem_cons, List.forall_mem_flatMap]
    refine ⟨List.isChain_singleton _, fun u hu => List.forall_mem_map.2 fun w hw => ?_⟩
    have hchain := ih u hu w hw
    have hhead := head?_path hw
    rw [Visit.path_beneath]
    rcases mem_steps hu with ⟨habove, hchild, _⟩ | ⟨_, bs, ls, habove, hterm, hlabel⟩
    · rw [habove]
      exact List.isChain_cons.2 ⟨by simpa [hhead, Node.children] using hchild, hchain⟩
    · rw [habove]
      refine List.isChain_cons_cons.2 ⟨hterm, List.isChain_cons.2 ⟨?_, hchain⟩⟩
      simpa [hhead, Node.children] using hlabel

end Renderer

/-! ## The names of a failure -/

def names (path : List Node) : List String :=
  path.filterMap Node.name?

/-- The names of the elements on a path that are entered: all but the terms of definition lists.
`inList` tells that the path starts in a definition list. -/
def entered (inList : Bool) : List Node → List String
  | [] => []
  | n :: rest =>
    (if inList && n.isA .term then [] else n.name?.toList) ++ entered (n.isA .definitionList) rest

theorem names_cons (n : Node) (rest : List Node) : names (n :: rest) = n.name?.toList ++ names rest := by
  cases n <;> rfl

theorem entered_sublist (inList : Bool) (path : List Node) :
    (entered inList path).Sublist (names path) := by
  induction path generalizing inList with
  | nil => exact .slnil
  | cons n rest ih =>
    rw [entered, names_cons]
    refine List.Sublist.append ?_ (ih _)
    split
    · exact List.nil_sublist _
    · exact List.Sublist.refl _

theorem entered_eq_names_iff (inList : Bool) (path : List Node) :
    entered inList path = names path ↔
      (inList = true → ∀ n ∈ path.head?, n.isA .term = false) ∧
        path.IsChain fun outer inner => outer.isA .definitionList = true → inner.isA .term = false := by
  induction path generalizing inList with
  | nil => exact iff_of_true rfl ⟨fun _ => nofun, List.isChain_nil⟩
  | cons n rest ih =>
    rw [entered, names_cons, List.isChain_cons]
    cases hpassed : inList && n.isA .term with
    | true =>
      rw [Bool.and_eq_true] at hpassed
      obtain ⟨as, cs, rfl⟩ := Node.isA_iff.1 hpassed.2
      refine iff_of_false (fun h => ?_) fun h => ?_
      · have hlength := (entered_sublist (Node.isA .definitionList (.element Kind.term.name as cs)) rest).length_le
        have hsame := congrArg List.length h
        simp [Node.name?] at hsame
        omega
      · exact absurd (h.1 hpassed.1 _ rfl) (by rw [hpassed.2]; nofun)
    | false =>
      rw [if_neg Bool.false_ne_true, List.append_cancel_left_eq, ih]
      have hhead : inList = true → ∀ m ∈ (n :: rest).head?, m.isA .term = false := by
        rintro rfl m ⟨⟩
        exact hpassed
      exact ⟨fun ⟨h, hchain⟩ => ⟨hhead, fun m hm hlist => h hlist m hm, hchain⟩,
        fun ⟨_, h, hchain⟩ => ⟨fun hlist m hm => h m hm hlist, hchain⟩⟩

namespace Renderer

theorem entered_append {r : Renderer} {name : String} {as : Attributes} {cs : List Node} {v : Visit}
    (h : v ∈ r.steps name cs) {w : Visit} (hw : w ∈ r.walk v.node) :
    entered (Node.isA .definitionList (.element name as cs)) (v.above ++ w.path) =
      entered false w.path := by
  obtain ⟨rest, hpath⟩ : ∃ rest, w.path = v.node :: rest := List.head?_eq_some_iff.1 (head?_path hw)
  rcases mem_steps h with ⟨habove, _, hterm⟩ | ⟨rfl, bs, ls, habove, _, _⟩
  · rw [habove, List.nil_append, hpath, entered, entered]
    cases hlist : Node.isA .definitionList (.element name as cs) with
    | false => rfl
    | true =>
      obtain ⟨_, _, heq⟩ := Node.isA_iff.1 hlist
      rw [hterm (Node.element.inj heq).1]
      rfl
  · rw [habove]
    rfl

/-! ## Renderings -/

end Renderer

/-- A failure is the one to show the element that is visited, within the elements named. -/
def Explains (trail : List String) (inList : Bool) (v : Visit) (f : Fault) : Prop :=
  ∃ name as, v.node = .element name as [] ∧
    f = .unrenderable name (trail ++ entered inList v.path) none

/-- A rendering that ends well has met no element that cannot be shown, and one that fails to show
an element has met it first. -/
structure Finds (trail : List String) (inList : Bool) (found : Option Visit)
    (x : EStateM.Result Fault (List Notice) String) : Prop where
  ok : ∀ page log, x = .ok page log → found = none
  error : ∀ f log, x = .error f log → f.isStuck = true →
    ∃ v, found = some v ∧ Explains trail inList v f

namespace Finds

variable {trail : List String} {inList : Bool} {found : Option Visit}

theorem of_ok {page : String} {log : List Notice} (h : found = none) :
    Finds trail inList found (.ok page log) :=
  ⟨fun _ _ _ => h, nofun⟩

theorem of_notStuck {f : Fault} {log : List Notice} (h : f.isStuck = false) :
    Finds trail inList found (.error f log) where
  ok := nofun
  error := by
    rintro _ _ ⟨⟩ hstuck
    exact absurd (hstuck.symm.trans h) nofun

theorem of_explains {v : Visit} {f : Fault} {log : List Notice} (h : Explains trail inList v f) :
    Finds trail inList (some v) (.error f log) where
  ok := nofun
  error := by
    rintro _ _ ⟨⟩ _
    exact ⟨v, rfl, h⟩

theorem append {second : Option Visit} {x y : Rendered String} {log : List Notice}
    (hx : Finds trail inList found (x log)) (hy : ∀ log, Finds trail inList second (y log)) :
    Finds trail inList (found.or second)
      ((x >>= fun first => y >>= fun others => pure (first ++ others)) log) := by
  cases hfirst : x log with
  | error f log' =>
    rw [bind_of_error hfirst]
    refine ⟨nofun, ?_⟩
    rintro _ _ ⟨⟩ hstuck
    obtain ⟨v, rfl, hv⟩ := hx.error f log' hfirst hstuck
    exact ⟨v, rfl, hv⟩
  | ok first log' =>
    rw [hx.ok _ _ hfirst, Option.none_or, bind_of_ok hfirst]
    cases hothers : y log' with
    | ok page log'' =>
      rw [bind_of_ok hothers]
      exact .of_ok ((hy log').ok _ _ hothers)
    | error f log'' =>
      rw [bind_of_error hothers]
      refine ⟨nofun, ?_⟩
      rintro _ _ ⟨⟩
      exact (hy log').error f log'' hothers

theorem passing {above : List Node} {x : EStateM.Result Fault (List Notice) String}
    (h : Finds trail false found x)
    (hentered : ∀ v, found = some v → entered inList (above ++ v.path) = entered false v.path) :
    Finds trail inList (found.map (Visit.beneath above)) x where
  ok page log hx := by rw [h.ok page log hx]; rfl
  error f log hx hstuck := by
    obtain ⟨v, hv, name, as, hnode, rfl⟩ := h.error f log hx hstuck
    refine ⟨v.beneath above, by rw [hv]; rfl, name, as, hnode, ?_⟩
    rw [Visit.path_beneath, hentered v hv]

/-- Seen from the element around. -/
theorem beneath {name : String} {as : Attributes} {cs : List Node}
    {x : EStateM.Result Fault (List Notice) String}
    (h : Finds (trail ++ [name]) (Node.isA .definitionList (.element name as cs)) found x) :
    Finds trail false (found.map (Visit.beneath [.element name as cs])) x where
  ok page log hx := by rw [h.ok page log hx]; rfl
  error f log hx hstuck := by
    obtain ⟨v, rfl, other, bs, hnode, rfl⟩ := h.error f log hx hstuck
    refine ⟨_, rfl, other, bs, hnode, ?_⟩
    rw [Visit.path_beneath, List.append_assoc]
    rfl

end Finds

namespace Renderer

theorem perform_finds {r : Renderer} {trail : List String} {inList : Bool} (ps : List Piece)
    (hstuck : ∀ other, .stuck other ∉ ps) (hown : ∀ s, .own s ∈ ps → NotStuck s)
    (hentered : ∀ v ∈ ps.flatMap Piece.visits, ∀ w ∈ r.walk v.node,
      entered inList (v.above ++ w.path) = entered false w.path)
    (hshown : ∀ v ∈ ps.flatMap Piece.visits, ∀ log,
      Finds trail false (r.firstUnshowable v.node) (r.render trail v.node log))
    (log : List Notice) :
    Finds trail inList (r.firstFrom (ps.flatMap Piece.visits)) (r.perform trail ps log) := by
  induction ps generalizing log with
  | nil => exact .of_ok rfl
  | cons p rest ih =>
    replace ih := ih (fun other h => hstuck other (List.mem_cons_of_mem _ h))
      (fun s h => hown s (List.mem_cons_of_mem _ h))
      (fun v h => hentered v (List.mem_append_right _ h))
      (fun v h => hshown v (List.mem_append_right _ h))
    cases p with
    | own s =>
      rw [perform_own]
      cases s with
      | ok first => exact Finds.append (x := pure first) (.of_ok rfl) ih
      | error f => exact .of_notStuck (hown _ List.mem_cons_self f rfl)
    | notice n =>
      rw [perform_notice]
      exact ih (log ++ [n])
    | node v =>
      have hfirst := (hshown v List.mem_cons_self log).passing fun w hw =>
        hentered v List.mem_cons_self w (List.mem_of_find?_eq_some hw)
      rw [perform_node]
      exact r.firstFrom_cons v _ ▸ hfirst.append ih
    | stuck name => exact absurd List.mem_cons_self (hstuck name)

theorem notStuck_linkHtml (r : Renderer) (as : Attributes) : NotStuck (r.linkHtml as) :=
  (r.notStuck_linkAddress as).bind fun address =>
    (notStuck_linkAttributes as address).bind fun _ => notStuck_ok _

theorem notStuck_layout (r : Renderer) (name : String) (as : Attributes) (cs : List Node)
    (s : Except Fault String) (h : .own s ∈ r.layout name as cs) : NotStuck s := by
  refine forall_layout (P := fun p => ∀ s, p = .own s → NotStuck s) ?_ ?_ ?_ ?_ ?_ ?_ ?_ ?_ _ h s rfl
  · rintro t _ ⟨⟩
    exact notStuck_ok t
  · exact fun _ => nofun
  · exact fun _ => nofun
  · rintro tag _ ⟨⟩
    exact notStuck_openingTag _ _
  · rintro t _ _ ⟨⟩
    exact notStuck_openingTag _ _
  · rintro _ ⟨⟩
    exact (r.notStuck_linkHtml as).bind (notStuck_openingTag "a")
  · rintro language _ _ ⟨⟩
    exact r.notStuck_codeBlock _ _
  · exact fun _ => nofun

/-- A rendering finds the first element of the walk that cannot be shown. -/
theorem render_finds (r : Renderer) (n : Node) (trail : List String) (log : List Notice) :
    Finds trail false (r.firstUnshowable n) (r.render trail n log) := by
  induction n using walk_induction r generalizing trail log with
  | text s =>
    rw [firstUnshowable_text, render]
    cases h : r.text s with
    | ok page => exact .of_ok rfl
    | error f => exact .of_notStuck (r.notStuck_text s f h)
  | element name as cs ih =>
    rw [firstUnshowable_element, render_element]
    cases hu : isUnshowable (.element name as cs) with
    | true =>
      obtain rfl : cs = [] := by cases cs <;> trivial
      rw [if_pos rfl, r.layout_unshowable hu, perform_stuck]
      exact .of_explains ⟨name, as, rfl, rfl⟩
    | false =>
      refine Finds.beneath ?_
      rw [← visits_layout r name as cs] at ih ⊢
      refine perform_finds _ (r.stuck_notMem_layout hu) (r.notStuck_layout name as cs) ?_
        (fun v hv => ih v hv _) log
      rw [visits_layout]
      exact fun v hv w hw => entered_append hv hw

/-- A failure to show an element names the element: the first one of the walk that cannot be shown. It
names the elements that are entered on the way from the root down to it, and these are all elements
on the way exactly if none of them is a term standing directly in a definition list. -/
theorem trail_of_unrenderable (r : Renderer) (n : Node) {log log' : List Notice} {name : String}
    {trail : List String} {routeSection : Option String}
    (h : r.render [] n log = .error (.unrenderable name trail routeSection) log') :
    ∃ v, r.firstUnshowable n = some v ∧ v.path.head? = some n ∧
      (v.path.IsChain fun outer inner => inner ∈ outer.children) ∧
      (∃ as, v.node = .element name as []) ∧ routeSection = none ∧
      trail = entered false v.path ∧
      (trail = names v.path ↔ v.path.IsChain fun outer inner =>
        outer.isA .definitionList = true → inner.isA .term = false) := by
  obtain ⟨v, hfound, other, as, hnode, hfault⟩ := (r.render_finds n [] log).error _ _ h rfl
  have hwalk : v ∈ r.walk n := List.mem_of_find?_eq_some hfound
  obtain ⟨rfl, htrail, rfl⟩ := Fault.unrenderable.inj hfault
  refine ⟨v, hfound, head?_path hwalk, isChain_of_mem_walk r n v hwalk, ⟨as, hnode⟩, rfl, htrail, ?_⟩
  rw [htrail, List.nil_append, entered_eq_names_iff]
  exact and_iff_right nofun

theorem trail_of_unrenderable_in_definition :
    Renderer.render ⟨.default, "pod"⟩ []
        (.element "Document" [] [.element "over-text" []
          [.element "Y" [] [], .element "item-text" [] [.text "a"],
            .element "X" [] [.element "Z" [] []]]]) [] =
      .error (.unrenderable "Z" ["Document", "over-text", "X", "Z"] none) [.unrecognised "X"] ∧
    ∃ v, Renderer.firstUnshowable ⟨.default, "pod"⟩
        (.element "Document" [] [.element "over-text" []
          [.element "Y" [] [], .element "item-text" [] [.text "a"],
            .element "X" [] [.element "Z" [] []]]]) = some v ∧
      ["Document", "over-text", "X", "Z"] = entered false v.path := by
  have h : Renderer.render ⟨.default, "pod"⟩ []
      (.element "Document" [] [.element "over-text" []
        [.element "Y" [] [], .element "item-text" [] [.text "a"],
          .element "X" [] [.element "Z" [] []]]]) [] =
    .error (.unrenderable "Z" ["Document", "over-text", "X", "Z"] none) [.unrecognised "X"] := rfl
  obtain ⟨v, hv, _, _, _, _, htrail, _⟩ := trail_of_unrenderable _ _ h
  exact ⟨h, v, hv, htrail⟩

/-- The term of a definition list is on the way to an element in it, but is not named. -/
theorem trail_omits_term :
    Renderer.render ⟨.default, "pod"⟩ []
        (.element "over-text" [] [.element "item-text" [] [.element "Z" [] []]]) [] =
      .error (.unrenderable "Z" ["over-text", "Z"] none) [] ∧
    (Renderer.firstUnshowable ⟨.default, "pod"⟩
        (.element "over-text" [] [.element "item-text" [] [.element "Z" [] []]])).map
      (fun v => names v.path) = some ["over-text", "item-text", "Z"] := by
  refine ⟨rfl, ?_⟩
  cbv

end Renderer
end Html
end RouteDocs
