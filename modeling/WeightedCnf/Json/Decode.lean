import WeightedCnf.Json.Reader

namespace WeightedCnf.Json

def nat64? : Json → Option Nat
  | .number n => n.nat64?
  | _ => none

def float? : Json → Option Float
  | .number n => n.float?
  | _ => none

def bool? : Json → Option Bool
  | .bool b => some b
  | _ => none

def list? (item? : Json → Option α) : Json → Option (List α)
  | .array items => items.mapM item?
  | _ => none

def orNull? (item? : Json → Option α) : Json → Option (Option α)
  | .null => some none
  | j => (item? j).map some

-- A name: a text, or an object with that one key and no content.
def name? : Json → Option String
  | .text s => s
  | .object [(key, .null)] => key
  | _ => none

-- A field that is not there is `none`, and none may come twice. Other fields are skipped, or refused if the
-- record is `closed`.
def record? (names : List String) (closed : Bool) : Json → Option (List (Option Json))
  | .array items =>
    if names.length < items.length then none
    else some (items.map some ++ List.replicate (names.length - items.length) none)
  | .object fields => do
    let named ← fields.mapM fun (key, v) => key.map (·, v)
    if closed && named.any (fun (key, _) => !names.contains key) then none
    names.mapM fun name =>
      match named.filter (fun (key, _) => key == name) with
      | [] => some none
      | [(_, v)] => some (some v)
      | _ => none
  | _ => none

end WeightedCnf.Json
