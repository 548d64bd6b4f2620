import WeightedCnf.Json.Token

namespace WeightedCnf.Json

-- A container that is still open: what it holds so far, last item first. An object also holds the
-- key whose value comes next.
inductive Open where
  | array (items : List Json)
  | object (fields : List (Option String × Json)) (key : Option String)

inductive Expect where
  | value (mayEnd : Bool)
  | key (fields : List (Option String × Json)) (mayEnd : Bool)
  | colon (fields : List (Option String × Json)) (key : Option String)
  | separator
  | nothing (v : Json)

structure Machine where
  stack : List Open
  expect : Expect

namespace Machine

def start : Machine := ⟨[], .value false⟩

def complete (v : Json) : List Open → Machine
  | [] => ⟨[], .nothing v⟩
  | .array items :: below => ⟨.array (v :: items) :: below, .separator⟩
  | .object fields key :: below => ⟨.object ((key, v) :: fields) none :: below, .separator⟩

def close (m : Machine) (token : Token) : Option Machine :=
  match m.stack, token with
  | .array items :: below, .closeArray => some (complete (.array items.reverse) below)
  | .object fields _ :: below, .closeObject => some (complete (.object fields.reverse) below)
  | _, _ => none

def value (m : Machine) (mayEnd : Bool) (token : Token) : Option Machine :=
  match token with
  | .null => some (complete .null m.stack)
  | .bool b => some (complete (.bool b) m.stack)
  | .number n => some (complete (.number n) m.stack)
  | .text s => some (complete (.text s) m.stack)
  | .openArray => some ⟨.array [] :: m.stack, .value true⟩
  | .openObject => some ⟨m.stack, .key [] true⟩
  | .closeArray => if mayEnd then m.close .closeArray else none
  | _ => none

def step (m : Machine) (token : Token) : Option Machine :=
  match m.expect with
  | .value mayEnd => m.value mayEnd token
  | .key fields mayEnd =>
    match token with
    | .text key => some ⟨m.stack, .colon fields key⟩
    | .closeObject => if mayEnd then some (complete (.object fields.reverse) m.stack) else none
    | _ => none
  | .colon fields key =>
    if token = .colon then some ⟨.object fields key :: m.stack, .value false⟩ else none
  | .separator =>
    if token = .comma then
      match m.stack with
      | .object fields _ :: below => some ⟨below, .key fields false⟩
      | _ => some ⟨m.stack, .value false⟩
    else m.close token
  | .nothing _ => none

def result? (m : Machine) : Option Json :=
  match m.expect with
  | .nothing v => some v
  | _ => none

end Machine

def parse? (s : String) : Option Json := do
  let tokens ← Token.tokens? s
  let machine ← tokens.foldlM Machine.step Machine.start
  machine.result?

end WeightedCnf.Json
