import WeightedCnf.Command.Run
import WeightedCnf.Random.ChaCha

open WeightedCnf Command

def fileCause : IO.Error → FileError
  | .inappropriateType _ code _ => if code = 20 then .notDirectory else .isDirectory
  | .invalidArgument _ 36 _ => .nameTooLong
  | _ => .notFound

def fileSystem : Environment IO ChaCha.Stream where
  read path := do
    try return .ok (← IO.FS.readBinFile path)
    catch e => return .error (fileCause e)
  write path text := do
    try
      IO.FS.writeFile path text
      return .ok ()
    catch e => return .error (fileCause e)
  seeded := .ofSeed
  unseeded := return .ofBytes (← IO.getRandomBytes 32)
  allowance := 4611686018427387904

def secondsText (thousandths : Nat) : String :=
  let places := toString (1000 + thousandths % 1000)
  toString (thousandths / 1000) ++ "." ++ String.ofList (places.toList.drop 1)

def main (args : List String) : IO UInt32 := do
  let began ← IO.monoNanosNow
  match ← Command.run fileSystem args with
  | none =>
    for line in helpLines do
      IO.eprintln line
    return 2
  | some outcome =>
    let nanoseconds := (← IO.monoNanosNow) - began
    for item in outcome.log do
      IO.eprintln (item.level.name ++ " " ++ item.message)
    match outcome.output with
    | .lines ls =>
      for line in ls do
        IO.println line
    | .answer ls =>
      for line in ls do
        IO.println line
      IO.println ("c Time: " ++ secondsText ((nanoseconds + 500000) / 1000000) ++ "s")
    | .report r => IO.println (r.toJson (nanoseconds.toFloat / 1000000000.0)).pretty
    if let some message := outcome.message? then
      IO.eprintln ("Error: " ++ message)
    return outcome.exitCode.toUInt32
