import LinkArchive.Release.Walk

/-! A handler gets each record of a walk and may fail, which ends the walk at that record. -/

namespace LinkArchive

/-- Takes a record, and may fail with a text. -/
abbrev Handler (σ : Type) := LinkRecord → LinkContext → σ → Option String × σ

structure Handled (σ α : Type) where
  result : Except ReleaseError α
  events : List Event
  state : σ

namespace Handled

def ofResult (result : Except ReleaseError α) (state : σ) : Handled σ α := ⟨result, [], state⟩

def andThen (first : Handled σ α) (next : α → σ → Handled σ β) : Handled σ β :=
  match first.result with
  | .error error => ⟨.error error, first.events, first.state⟩
  | .ok value =>
    let second := next value first.state
    ⟨second.result, first.events ++ second.events, second.state⟩

/-- Does the same with each of some things, up to the first failure. -/
def each (step : α → σ → Handled σ β) : List α → σ → Handled σ (List β)
  | [], state => ofResult (.ok []) state
  | value :: rest, state =>
    (step value state).andThen fun first state =>
      (each step rest state).andThen fun others state => ofResult (.ok (first :: others)) state

def ofEvents (handler : Handler σ) : List Event → σ → Handled σ Unit
  | [], state => ofResult (.ok ()) state
  | .link record context :: rest, state =>
    match handler record context state with
    | (some text, state) =>
      ⟨.error (.handler context.place text), [.link record context], state⟩
    | (none, state) =>
      let others := ofEvents handler rest state
      { others with events := .link record context :: others.events }
  | event :: rest, state =>
    let others := ofEvents handler rest state
    { others with events := event :: others.events }

def ofWalk (handler : Handler σ) (walk : Except ReleaseError Walk) (state : σ) :
    Handled σ ReleaseReport :=
  match walk with
  | .error error => ofResult (.error error) state
  | .ok walk =>
    (ofEvents handler walk.events state).andThen fun _ state => ofResult (.ok walk.report) state

end Handled

end LinkArchive
