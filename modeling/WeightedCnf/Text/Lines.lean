-- Bytes are first cut into lines and each line is then decoded, so that a fault in the encoding belongs to one
-- line.

namespace WeightedCnf.Text

def cutAfter (isEnd : α → Bool) (xs : List α) : List (List α) :=
  let parts := xs.splitOnP isEnd
  if (parts.getLast?.map List.isEmpty).getD false then parts.dropLast else parts

def lines (s : String) : List (List Char) := cutAfter (· == '\n') s.toList

def decodedLines (s : String) : List (Option (List Char)) := (lines s).map some

def byteLines (bytes : ByteArray) : List (Option (List Char)) :=
  (cutAfter (· == 10) bytes.toList).map fun line =>
    (String.fromUTF8? ⟨line.toArray⟩).map String.toList

end WeightedCnf.Text
