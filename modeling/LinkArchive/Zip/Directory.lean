import LinkArchive.Zip.Entry

/-! Finds the central directory of a zip file and reads the entries in its order. -/

namespace LinkArchive.Zip

def placesFrom (needle : Bytes) (place : Nat) : Bytes → List Nat
  | [] => []
  | byte :: rest =>
    let places := placesFrom needle (place + 1) rest
    if needle.isPrefixOf (byte :: rest) then place :: places else places

/-- Data before the archive moves its directory. That is as long before its end as the end record
says, or else begins at the first record after the place stated. -/
def directoryPlace? (data : Bytes) (ending : EndRecord) : Option Nat :=
  let isRecord (place : Nat) : Bool := (record? data DirectoryRecord.signature place 4).isSome
  let near := ending.place - ending.size
  if ending.place ≤ ending.directory then none
  else if ending.directory ≤ near && near < ending.place && isRecord near then some near
  else (placesFrom DirectoryRecord.signature 0 (data.take ending.place)).find?
    (ending.directory ≤ ·)

/-- `shift` is the length of what is before the archive. -/
def recordsFrom (data : Bytes) (shift : Nat) : (count place : Nat) →
    Option (List (DirectoryRecord × Nat))
  | 0, _ => some []
  | count + 1, place => do
    let record ← DirectoryRecord.at? data place
    let content ← dataPlace? data (record.header + shift)
    if place < content then none
    return (record, content) :: (← recordsFrom data shift count (place + record.length))

def records? (data : Bytes) (ending : EndRecord) : Option (List (DirectoryRecord × Nat)) :=
  if ending.disk ≠ ending.directoryDisk then none
  else if ending.count = 0 then some []
  else do
    let place ← directoryPlace? data ending
    recordsFrom data (place - ending.directory) ending.count place

/-- A later record takes the place of an earlier one with its name. -/
def merge (records : List (DirectoryRecord × Nat)) : List (DirectoryRecord × Nat) :=
  records.foldl
    (fun merged next =>
      if merged.any (·.1.name == next.1.name) then
        merged.map fun old => if old.1.name == next.1.name then next else old
      else merged ++ [next])
    []

def entries? (data : Bytes) : Option (List Entry) := do
  let endings := (placesFrom EndRecord.signature 0 data).reverse.filterMap (EndRecord.at? data)
  let records ← endings.findSome? (records? data)
  let entries := (merge records).zipIdx.map fun ((record, place), index) =>
    Entry.ofRecord data index record place
  return entries.filter fun entry => !isDirectoryName entry.name

end LinkArchive.Zip
