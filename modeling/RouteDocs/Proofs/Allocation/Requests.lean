import RouteDocs.Proofs.Allocation

/-!
# Requests to a pool

A pool is asked for identifiers, one text after the other. A request is either for
an identifier of its own, which is handed out and from then on in use, or for the
identifier that the text stands for, whoever has that. For the former the pool goes
from one numbered form to the next while they are in use (`Search`).

Results:
* `search_fresh`: the search ends, in what the pool hands out.
* `answered_answer`: one request: what is answered and what is in use afterwards.
* `issued_answerAll`: a row of requests puts its grants behind what is in use.
* `answerAll_issues`: every request of a row is answered as by itself; what is granted is new each
  time, and nothing else comes to be in use.
-/
namespace RouteDocs.Identifiers

/-! ## The search -/

/-- A search through the numbered forms of an identifier, from a candidate on, with the number of
the next one: it ends at the first candidate that is not in use. -/
inductive Search (issued : List String) (base : String) : Nat → String → String → Prop where
  | free {next : Nat} {candidate : String} (h : candidate ∉ issued) :
      Search issued base next candidate candidate
  | taken {next : Nat} {candidate found : String} (h : candidate ∈ issued) :
      Search issued base (next + 1) (base ++ toString next) found →
      Search issued base next candidate found

theorem search_choice {issued : List String} {base : String} {n i : Nat}
    (htaken : ∀ j, i ≤ j → j < i + n → choice base j ∈ issued)
    (hfree : choice base (i + n) ∉ issued) :
    Search issued base i (choice base i) (choice base (i + n)) := by
  induction n generalizing i with
  | zero => exact .free hfree
  | succ n ih =>
    have hhere : choice base i ∈ issued := htaken i (Nat.le_refl i) (by omega)
    have hnext : i + (n + 1) = i + 1 + n := by omega
    rw [hnext] at hfree htaken ⊢
    exact .taken hhere (ih (fun j hj => htaken j (by omega)) hfree)

/-- The search ends, in what the pool hands out. -/
theorem search_fresh (ids : Identifiers) (s : String) :
    Search ids.issued (ids.normalize s) 0 (ids.normalize s) (ids.fresh s) := by
  obtain ⟨k, hk, hfree, hbefore⟩ := ids.fresh_eq_choice s
  rw [hk]
  rw [← Nat.zero_add k] at hfree ⊢
  exact search_choice (fun j _ hj => hbefore j (by omega)) hfree

/-! ## One request -/

/-- A request for the identifier of a text, which is to be one of its own or not. -/
structure Request where
  text : String
  unique : Bool

def answer (ids : Identifiers) (r : Request) : String × Identifiers :=
  if r.unique then ids.allocate r.text else (ids.normalize r.text, ids)

/-- What is in use before and after a request that is answered by `x`. -/
structure Answered (fallback : String) (before : List String) (r : Request) (x : String)
    (after : List String) : Prop where
  shared : r.unique = false → x = Identifier.normalize fallback r.text ∧ after = before
  ends : r.unique = true → Search before (Identifier.normalize fallback r.text) 0
    (Identifier.normalize fallback r.text) x
  own : r.unique = true → Identifier.normalize fallback r.text ∉ before →
    x = Identifier.normalize fallback r.text
  numbered : r.unique = true → Identifier.normalize fallback r.text ∈ before →
    ∃ k : Nat, x = Identifier.normalize fallback r.text ++ toString k ∧ x ∉ before ∧
      ∀ j < k, Identifier.normalize fallback r.text ++ toString j ∈ before
  issued : r.unique = true → ∀ y, y ∈ after ↔ y ∈ before ∨ y = x

section
variable {ids : Identifiers} {r : Request}

theorem answer_of_unique (h : r.unique = true) : ids.answer r = ids.allocate r.text := by
  rw [answer, if_pos h]

theorem answer_of_shared (h : r.unique = false) :
    ids.answer r = (ids.normalize r.text, ids) := by
  rw [answer, h, if_neg Bool.false_ne_true]

/-- What is handed out comes last among the identifiers in use. -/
theorem issued_allocate (ids : Identifiers) (s : String) :
    (ids.allocate s).2.issued = ids.issued ++ [ids.fresh s] := by
  have hnew : ids.issued.contains (ids.fresh s) = false := by
    rw [Bool.eq_false_iff, ne_eq, List.contains_iff_mem]
    exact ids.fresh_notMem s
  rw [allocate, insert, hnew, if_neg Bool.false_ne_true]

theorem fallback_answer (ids : Identifiers) (r : Request) :
    (ids.answer r).2.fallback = ids.fallback := by
  cases h : r.unique with
  | false => rw [answer_of_shared h]
  | true => rw [answer_of_unique h, fallback_allocate]

/-- A request is answered by its own identifier, or by the first numbered form that is not in use. -/
theorem answered_answer (ids : Identifiers) (r : Request) :
    Answered ids.fallback ids.issued r (ids.answer r).1 (ids.answer r).2.issued := by
  cases h : r.unique with
  | false =>
    rw [answer_of_shared h]
    refine ⟨fun _ => ⟨rfl, rfl⟩, ?_, ?_, ?_, ?_⟩ <;> exact fun hu => absurd (h.symm.trans hu) nofun
  | true =>
    obtain ⟨k, hk, hfree, hbefore⟩ := ids.fresh_eq_choice r.text
    have hx : (ids.allocate r.text).1 = ids.fresh r.text := rfl
    rw [answer_of_unique h, hx]
    constructor
    case shared => exact fun hu => absurd (h.symm.trans hu) nofun
    case ends => exact fun _ => ids.search_fresh r.text
    case own =>
      intro _ hbase
      cases k with
      | zero => exact hk
      | succ k => exact absurd (hbefore 0 (Nat.succ_pos k)) hbase
    case numbered =>
      intro _ hbase
      cases k with
      | zero => exact absurd hbase hfree
      | succ k =>
        exact ⟨k, hk, ids.fresh_notMem r.text, fun j hj => hbefore (j + 1) (Nat.succ_lt_succ hj)⟩
    case issued => exact fun _ y => mem_issued_allocate

end

/-! ## Rows of requests -/

def answerAll : Identifiers → List Request → List String × Identifiers
  | ids, [] => ([], ids)
  | ids, r :: rest =>
    let (x, ids) := ids.answer r
    let (xs, ids) := answerAll ids rest
    (x :: xs, ids)

/-- What is granted: the answers to the requests for an identifier of their own. -/
def granted (requests : List Request) (answers : List String) : List String :=
  ((requests.zip answers).filter fun a => a.1.unique).map Prod.snd

section
variable (ids : Identifiers) (r : Request) (requests before after : List Request)

theorem answerAll_cons :
    ids.answerAll (r :: requests) =
      ((ids.answer r).1 :: ((ids.answer r).2.answerAll requests).1,
        ((ids.answer r).2.answerAll requests).2) :=
  rfl

theorem answerAll_append :
    ids.answerAll (before ++ after) =
      ((ids.answerAll before).1 ++ ((ids.answerAll before).2.answerAll after).1,
        ((ids.answerAll before).2.answerAll after).2) := by
  induction before generalizing ids with
  | nil => rfl
  | cons r before ih => rw [List.cons_append, answerAll_cons, answerAll_cons, ih]; rfl

theorem length_answerAll : (ids.answerAll requests).1.length = requests.length := by
  induction requests generalizing ids with
  | nil => rfl
  | cons r requests ih => rw [answerAll_cons, List.length_cons, List.length_cons, ih]

theorem fallback_answerAll : (ids.answerAll requests).2.fallback = ids.fallback := by
  induction requests generalizing ids with
  | nil => rfl
  | cons r requests ih => rw [answerAll_cons, ih, fallback_answer]

theorem granted_shared {r : Request} (h : r.unique = false) (requests : List Request) (x : String)
    (answers : List String) :
    granted (r :: requests) (x :: answers) = granted requests answers := by
  rw [granted, List.zip_cons_cons, List.filter_cons_of_neg (by simp [h]), granted]

theorem granted_unique {r : Request} (h : r.unique = true) (requests : List Request) (x : String)
    (answers : List String) :
    granted (r :: requests) (x :: answers) = x :: granted requests answers := by
  rw [granted, List.zip_cons_cons, List.filter_cons_of_pos (by simp [h]), List.map_cons, granted]

/-- The grants of a row come behind what is in use, in order. -/
theorem issued_answerAll :
    (ids.answerAll requests).2.issued =
      ids.issued ++ granted requests (ids.answerAll requests).1 := by
  induction requests generalizing ids with
  | nil => exact (List.append_nil _).symm
  | cons r requests ih =>
    rw [answerAll_cons, ih]
    cases h : r.unique with
    | false => rw [answer_of_shared h, granted_shared h]
    | true =>
      have hx : (ids.allocate r.text).1 = ids.fresh r.text := rfl
      rw [answer_of_unique h, granted_unique h, issued_allocate, List.append_assoc, hx]
      rfl

theorem nodup_concat {issued : List String} (h : issued.Nodup) {x : String} (hx : x ∉ issued) :
    (issued ++ [x]).Nodup :=
  List.nodup_append.2 ⟨h, List.pairwise_singleton _ x, fun _ hy _ hz => by
    rw [List.mem_singleton.1 hz]
    rintro rfl
    exact hx hy⟩

/-- No identifier comes to be in use twice. -/
theorem nodup_issued_answerAll (h : ids.issued.Nodup) :
    (ids.answerAll requests).2.issued.Nodup := by
  induction requests generalizing ids with
  | nil => exact h
  | cons r requests ih =>
    rw [answerAll_cons]
    refine ih _ ?_
    cases hr : r.unique with
    | false => rwa [answer_of_shared hr]
    | true =>
      rw [answer_of_unique hr, issued_allocate]
      exact nodup_concat h (ids.fresh_notMem r.text)

end

theorem nodup_insert {issued : List String} (h : issued.Nodup) (x : String) :
    (insert issued x).Nodup := by
  rw [insert]
  split
  · exact h
  · rename_i hx
    rw [List.contains_iff_mem] at hx
    exact nodup_concat h hx

theorem nodup_issued_ofSeed (seed : List String) (fallback : String) :
    (ofSeed seed fallback).issued.Nodup := by
  have hfold : ∀ issued : List String, issued.Nodup → (seed.foldl insert issued).Nodup := by
    induction seed with
    | nil => exact fun _ h => h
    | cons x seed ih => exact fun issued h => ih _ (nodup_insert h x)
  exact hfold [] List.nodup_nil

/-- A pool that starts with a seed answers every request of a row as it stands then: a request for
no identifier of its own by the identifier of the text, any other by the first form of it that is
not in use, which the search for it reaches. What is granted is new each time, none of it is in the
seed, and the identifiers in use are those of the seed and those granted. -/
theorem answerAll_issues (seed : List String) (fallback : String) (requests : List Request) :
    (∀ before r after, requests = before ++ r :: after →
      ∃ x, ((ofSeed seed fallback).answerAll requests).1[before.length]? = some x ∧
        Answered fallback ((ofSeed seed fallback).answerAll before).2.issued r x
          ((ofSeed seed fallback).answerAll (before ++ [r])).2.issued) ∧
    (granted requests ((ofSeed seed fallback).answerAll requests).1).Nodup ∧
    (∀ x ∈ granted requests ((ofSeed seed fallback).answerAll requests).1, x ∉ seed) ∧
    (∀ x, x ∈ ((ofSeed seed fallback).answerAll requests).2.issued ↔
      x ∈ seed ∨ x ∈ granted requests ((ofSeed seed fallback).answerAll requests).1) ∧
    ((ofSeed seed fallback).answerAll requests).2.issued.Nodup := by
  have hnodup := nodup_issued_answerAll (ofSeed seed fallback) requests (nodup_issued_ofSeed _ _)
  have hsplit := hnodup
  rw [issued_answerAll, List.nodup_append] at hsplit
  obtain ⟨-, hgranted, hapart⟩ := hsplit
  refine ⟨?_, hgranted, fun x hx hseed => ?_, fun x => ?_, hnodup⟩
  · rintro before r after rfl
    have hstep := answered_answer ((ofSeed seed fallback).answerAll before).2 r
    rw [fallback_answerAll] at hstep
    have hlast : ((ofSeed seed fallback).answerAll (before ++ [r])).2 =
        (((ofSeed seed fallback).answerAll before).2.answer r).2 := by
      rw [answerAll_append]
      rfl
    refine ⟨(((ofSeed seed fallback).answerAll before).2.answer r).1, ?_, ?_⟩
    · rw [answerAll_append, answerAll_cons, ← length_answerAll (ofSeed seed fallback) before]
      simp only [List.getElem?_append_right (Nat.le_refl _), Nat.sub_self, List.getElem?_cons_zero]
    · rw [hlast]
      exact hstep
  · exact hapart x (mem_issued_ofSeed.2 hseed) x hx rfl
  · rw [issued_answerAll, List.mem_append, mem_issued_ofSeed]

/-- A numbered form of one text can be the own identifier of another. -/
example : ((ofSeed ["a0"] "pod").answerAll
    [⟨"A", true⟩, ⟨"a0", true⟩, ⟨"A", true⟩, ⟨"A", false⟩]).1 = ["a", "a00", "a1", "a"] := by
  decide +kernel

end RouteDocs.Identifiers
