import LinkArchive.Source

/-! A reader that hashes what it passes on. Where its source ends it compares the digests: the
verdict replaces the end of data, and every later read repeats it. -/

namespace LinkArchive

structure Validator where
  source : Source
  expected : DigestSet
  /-- One hasher for each expected digest, in checking order, beside the digest. -/
  hashers : List (Algorithm × Hasher × Bytes)
  bytes : Nat := 0
  /-- Once the end was reached: the first digest that differed, if one did. -/
  verdict : Option (Option Mismatch) := none

namespace Validator

def ofSource (source : Source) (expected : DigestSet) : Validator where
  source
  expected
  hashers := expected.toList.map fun (algorithm, digest) =>
    (algorithm, Hasher.ofAlgorithm algorithm, digest)

def isChecked (v : Validator) : Bool := v.verdict.isSome

def compare (hashers : List (Algorithm × Hasher × Bytes)) : Option Mismatch :=
  hashers.findSome? fun (algorithm, hasher, expected) =>
    let actual := hasher.finish
    if actual = expected then none else some ⟨algorithm, actual, expected⟩

def conclude : Option Mismatch → ReadResult
  | none => .ok []
  | some mismatch => .error (VerifyError.mismatch mismatch).toReadError

def pass (v : Validator) (bytes : Bytes) (source : Source) : Validator :=
  { v with
    source
    hashers := v.hashers.map fun (algorithm, hasher, expected) =>
      (algorithm, hasher.update bytes, expected)
    bytes := v.bytes + bytes.length }

/-- A read without room passes no verdict. -/
def read (v : Validator) (room : Nat) : ReadResult × Validator :=
  match v.verdict with
  | some verdict => (conclude verdict, v)
  | none =>
    match v.source.read room with
    | (.error error, source) => (.error error, { v with source })
    | (.ok [], source) =>
      if room = 0 then (.ok [], { v with source })
      else
        let verdict := compare v.hashers
        (conclude verdict, { v with source, verdict := some verdict })
    | (.ok bytes, source) => (.ok bytes, v.pass bytes source)

/-- Passes on all data up to the end or a failure that is no mere interruption. -/
def readToEnd (v : Validator) : Bytes × Option ReadError × Validator :=
  match v.verdict with
  | some verdict =>
    match conclude verdict with
    | .error error => ([], some error, v)
    | .ok _ => ([], none, v)
  | none =>
    match v.source.readToEnd with
    | (bytes, some error, source) => (bytes, some error, v.pass bytes source)
    | (bytes, none, source) =>
      let passed := v.pass bytes source
      let verdict := compare passed.hashers
      let checked := { passed with verdict := some verdict }
      match conclude verdict with
      | .error error => (bytes, some error, checked)
      | .ok _ => (bytes, none, checked)

/-- Reads the rest of the source: the number of all bytes, if they have the expected digests. -/
def finish (v : Validator) : Except VerifyError Nat :=
  match v.readToEnd with
  | (_, some error, _) => .error (.ofReadError error)
  | (_, none, checked) => .ok checked.bytes

end Validator

end LinkArchive
