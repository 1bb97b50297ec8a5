import RouteDocs.Fault

/-!
# Parameters

A command works on trees. It may be given a configuration, a path that stands
for the module's own, and whether to show all notices. What is given for each
of these is kept as it was written until all of it is known. Only the trees of
a command that takes several may be given more than once.
-/
namespace RouteDocs.CommandLine

inductive Verb where
  | render
  | bundle
  | dump
  deriving DecidableEq

def Verb.takesSeveral (v : Verb) : Bool :=
  v = .bundle

inductive Parameter where
  | trees
  | config
  | sourcePath
  | verbose
  deriving DecidableEq

/-- What is given for a parameter: a word, or a meaning that needs no word. -/
inductive Given where
  | word (s : String)
  | setting (b : Bool)
  | noTrees
  deriving DecidableEq

/-- What is given for every parameter, in order. -/
structure Supply where
  trees : List Given
  config : List Given
  sourcePath : List Given
  verbose : List Given

namespace Supply

/-- Nothing is given. -/
def empty : Supply := ⟨[], [], [], []⟩

def get (s : Supply) : Parameter → List Given
  | .trees => s.trees
  | .config => s.config
  | .sourcePath => s.sourcePath
  | .verbose => s.verbose

def has (s : Supply) (p : Parameter) : Bool :=
  !(s.get p).isEmpty

def add (s : Supply) (g : Given) : Parameter → Supply
  | .trees => { s with trees := s.trees ++ [g] }
  | .config => { s with config := s.config ++ [g] }
  | .sourcePath => { s with sourcePath := s.sourcePath ++ [g] }
  | .verbose => { s with verbose := s.verbose ++ [g] }

@[simp] theorem get_empty (p : Parameter) : empty.get p = [] := by
  cases p <;> rfl

@[simp] theorem get_add (s : Supply) (g : Given) (p : Parameter) :
    (s.add g p).get p = s.get p ++ [g] := by
  cases p <;> rfl

theorem get_add_of_ne (s : Supply) (g : Given) {p q : Parameter} (h : p ≠ q) :
    (s.add g p).get q = s.get q := by
  cases p <;> cases q <;> first | rfl | exact absurd rfl h

end Supply

def refuse {α : Type} (p : UsageProblem) : Except Fault α :=
  .error (.usage p)

/-- Give a parameter something, unless it has been given before and takes one thing only. -/
def Supply.give (v : Verb) (s : Supply) (p : Parameter) (g : Given) : Except Fault Supply :=
  if s.has p && !(p = .trees && v.takesSeveral) then refuse .repeatedOption else .ok (s.add g p)

end RouteDocs.CommandLine
