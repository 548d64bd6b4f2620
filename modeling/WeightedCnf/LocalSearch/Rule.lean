import WeightedCnf.Error

namespace WeightedCnf.LocalSearch

inductive StartRule where
  | allFalse
  | allTrue
  | random
  | greedy
deriving DecidableEq, Repr

inductive MoveRule where
  | random
  | greedy
  | greediest
  | walksat
deriving DecidableEq, Repr

namespace StartRule

def all : List StartRule := [allFalse, allTrue, random, greedy]

def name : StartRule → String
  | allFalse => "all-false"
  | allTrue => "all-true"
  | random => "random"
  | greedy => "greedy"

def ofName? (s : String) : Option StartRule := all.find? (·.name == s)

def ofName (s : String) : Except Error StartRule :=
  match ofName? s with
  | some rule => .ok rule
  | none =>
    .error (.settings (.unknownRule "initialization" s (String.intercalate ", " (all.map name))))

theorem ofName?_name (rule : StartRule) : ofName? rule.name = some rule := by
  cases rule <;> rfl

end StartRule

namespace MoveRule

def all : List MoveRule := [random, greedy, greediest, walksat]

def name : MoveRule → String
  | random => "random"
  | greedy => "greedy"
  | greediest => "greediest"
  | walksat => "walksat"

def ofName? (s : String) : Option MoveRule := all.find? (·.name == s)

def ofName (s : String) : Except Error MoveRule :=
  match ofName? s with
  | some rule => .ok rule
  | none =>
    .error (.settings (.unknownRule "neighborhood" s (String.intercalate ", " (all.map name))))

theorem ofName?_name (rule : MoveRule) : ofName? rule.name = some rule := by
  cases rule <;> rfl

end MoveRule

end WeightedCnf.LocalSearch
