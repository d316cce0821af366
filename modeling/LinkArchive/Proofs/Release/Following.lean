import LinkArchive.Proofs.Release.Visit
import LinkArchive.Release.Folder

/-!
# Handlers that can fail

The run of a handler that can fail follows the whole run, which is that of a handler that never
fails: `Visit.follows_release`, `Folder.follows_walkReleases`. It ends with the first record that
the handler fails on, if there is one: `Handled.Follows.stopped`.
-/

namespace LinkArchive

variable {σ τ α β : Type} {handler : Handler σ} {calm : Handler τ}

/-! ### Calls -/

/-- The handler takes some records one after the other, from one state to another. -/
inductive Handler.Takes (handler : Handler σ) :
    List (LinkRecord × LinkContext) → σ → σ → Prop where
  | nil (state : σ) : Takes handler [] state state
  | cons {record : LinkRecord} {context : LinkContext}
      {calls : List (LinkRecord × LinkContext)} {state next last : σ}
      (taken : handler record context state = (none, next))
      (others : Takes handler calls next last) :
      Takes handler ((record, context) :: calls) state last

namespace Handler

variable {calls others : List (LinkRecord × LinkContext)} {state middle last : σ}

theorem Takes.append (taken : handler.Takes calls state middle)
    (more : handler.Takes others middle last) : handler.Takes (calls ++ others) state last := by
  induction taken with
  | nil state => exact more
  | cons taken _ ih => exact .cons taken (ih more)

/-- Who takes all of some records does not fail on one of them. -/
theorem Takes.not_fails {record : LinkRecord} {context : LinkContext} {text : String}
    (taken : handler.Takes calls state middle)
    (failed : handler record context middle = (some text, last)) (final : σ) :
    ¬handler.Takes (calls ++ (record, context) :: others) state final := by
  intro all
  induction taken with
  | nil state =>
    cases all with
    | cons took _ => cases failed.symm.trans took
  | cons taken _ ih =>
    cases all with
    | cons took rest =>
      cases taken.symm.trans took
      exact ih failed rest

/-- There is one record that a handler fails on first. -/
theorem Takes.first_unique {before after later rest : List (LinkRecord × LinkContext)}
    {record other : LinkRecord} {context place : LinkContext} {text reason : String}
    {state middle between last final : σ} (taken : handler.Takes before state middle)
    (failed : handler record context middle = (some text, last))
    (took : handler.Takes after state between)
    (refused : handler other place between = (some reason, final))
    (same : before ++ (record, context) :: rest = after ++ (other, place) :: later) :
    before = after ∧ record = other ∧ context = place ∧ text = reason ∧ last = final := by
  induction taken generalizing after with
  | nil state =>
    cases took with
    | nil =>
      cases same
      cases failed.symm.trans refused
      exact ⟨rfl, rfl, rfl, rfl, rfl⟩
    | cons taken _ =>
      cases same
      cases failed.symm.trans taken
  | cons taken _ ih =>
    cases took with
    | nil =>
      cases same
      cases taken.symm.trans refused
    | cons also others =>
      obtain ⟨first, tail⟩ := List.cons.inj same
      cases first
      cases taken.symm.trans also
      obtain ⟨rfl, all⟩ := ih failed others tail
      exact ⟨rfl, all⟩

end Handler

/-! ### Runs -/

namespace Handled

/-- How a run with a handler compares with the whole run: it is that, if the handler takes all
records, or ends with the first record that the handler fails on. -/
inductive Follows (handler : Handler σ) (state : σ) (whole : Handled τ α) : Handled σ α → Prop where
  | all {last : σ} (taken : handler.Takes (Event.calls whole.events) state last) :
      Follows handler state whole ⟨whole.result, whole.events, last⟩
  | cut (seen rest : List Event) {record : LinkRecord} {context : LinkContext} {text : String}
      {middle last : σ} (events : whole.events = seen ++ .link record context :: rest)
      (taken : handler.Takes (Event.calls seen) state middle)
      (failed : handler record context middle = (some text, last)) :
      Follows handler state whole
        ⟨.error (.handler context.place text), seen ++ [.link record context], last⟩

theorem follows_ofResult (handler : Handler σ) (result : Except ReleaseError α) (calmState : τ)
    (state : σ) : Follows handler state (ofResult result calmState) (ofResult result state) :=
  .all (.nil state)

theorem Follows.andThen {whole : Handled τ α} {handled : Handled σ α} {state : σ}
    {rest : α → τ → Handled τ β} {next : α → σ → Handled σ β}
    (first : Follows handler state whole handled)
    (second : ∀ value calmState state,
      Follows handler state (rest value calmState) (next value state)) :
    Follows handler state (whole.andThen rest) (handled.andThen next) := by
  cases first with
  | @all last taken =>
    -- the first part went as in the whole run, so the second tells where the handler fails
    rcases whole with ⟨error | value, events, calmState⟩
    · exact .all taken
    · have later := second value calmState last
      simp only [Handled.andThen]
      generalize next value last = handled at later ⊢
      cases later with
      | all others =>
        refine .all ?_
        show handler.Takes (Event.calls (events ++ _)) state _
        rw [Event.calls_append]
        exact taken.append others
      | cut seen behind split others failed =>
        rw [← List.append_assoc]
        refine .cut (events ++ seen) behind ?_ ?_ failed
        · simp [split]
        · rw [Event.calls_append]
          exact taken.append others
  | cut seen behind split taken failed =>
    -- the second part happens in the whole run only, behind the record
    have longer : ∃ more, (whole.andThen rest).events = whole.events ++ more := by
      rcases whole with ⟨error | value, events, calmState⟩
      · exact ⟨[], (List.append_nil _).symm⟩
      · exact ⟨_, rfl⟩
    obtain ⟨more, longer⟩ := longer
    refine .cut seen (behind ++ more) ?_ taken failed
    rw [longer, split]
    simp

theorem follows_link (tireless : calm.Tireless) (handler : Handler σ) (record : LinkRecord)
    (context : LinkContext) (calmState : τ) (state : σ) :
    Follows handler state (ofEvents calm [.link record context] calmState)
      (ofEvents handler [.link record context] state) := by
  rw [ofEvents_of_tireless tireless]
  rcases answer : handler record context state with ⟨_ | text, next⟩
  · rw [ofEvents, answer]
    exact .all (.cons answer (.nil next))
  · rw [ofEvents, answer]
    exact .cut [] [] rfl (.nil state) answer

theorem follows_ofEvents (tireless : calm.Tireless) (handler : Handler σ) (events : List Event)
    (calmState : τ) (state : σ) :
    Follows handler state (ofEvents calm events calmState) (ofEvents handler events state) := by
  induction events generalizing calmState state with
  | nil => exact .all (.nil state)
  | cons event events ih =>
    have first : Follows handler state (ofEvents calm [event] calmState)
        (ofEvents handler [event] state) := by
      cases event with
      | link record context => exact follows_link tireless handler record context calmState state
      | diagnostic found => exact .all (.nil state)
      | memberDone report => exact .all (.nil state)
    rw [← List.singleton_append, ofEvents_append, ofEvents_append]
    refine first.andThen ?_
    intro _ calmState state
    exact ih calmState state

theorem follows_each {step : α → τ → Handled τ β} {next : α → σ → Handled σ β}
    (steps : ∀ value calmState state,
      Follows handler state (step value calmState) (next value state))
    (values : List α) (calmState : τ) (state : σ) :
    Follows handler state (each step values calmState) (each next values state) := by
  induction values generalizing calmState state with
  | nil => exact follows_ofResult handler (.ok []) calmState state
  | cons value values ih =>
    refine (steps value calmState state).andThen ?_
    intro first calmState state
    refine (ih calmState state).andThen ?_
    intro others calmState state
    exact follows_ofResult handler _ calmState state

theorem follows_ofWalk (tireless : calm.Tireless) (handler : Handler σ)
    (walk : Except ReleaseError Walk) (calmState : τ) (state : σ) :
    Follows handler state (ofWalk calm walk calmState) (ofWalk handler walk state) := by
  cases walk with
  | error error => exact follows_ofResult handler (.error error) calmState state
  | ok walk =>
    refine (follows_ofEvents tireless handler walk.events calmState state).andThen ?_
    intro _ calmState state
    exact follows_ofResult handler (.ok walk.report) calmState state

end Handled

theorem Visit.follows_release (tireless : calm.Tireless) (handler : Handler σ) (container : String)
    (options : WalkOptions) (file : Bytes) (calmState : τ) (state : σ) :
    Handled.Follows handler state (release calm container options file calmState)
      (release handler container options file state) := by
  rw [release_eq_ofWalk, release_eq_ofWalk]
  exact Handled.follows_ofWalk tireless handler _ calmState state

theorem Folder.follows_walkReleases (tireless : calm.Tireless) (handler : Handler σ)
    (tree : FileTree) (options : WalkOptions) (root : String) (calmState : τ) (state : σ) :
    Handled.Follows handler state (walkReleases tree options calm root calmState)
      (walkReleases tree options handler root state) := by
  have containers : ∀ folder calmState state, Handled.Follows handler state
      (walkContainers tree options calm folder calmState)
      (walkContainers tree options handler folder state) := by
    intro folder calmState state
    refine (Handled.follows_ofResult handler _ calmState state).andThen ?_
    apply Handled.follows_each
    intro path calmState state
    exact Handled.follows_ofWalk tireless handler _ calmState state
  refine (Handled.follows_ofResult handler _ calmState state).andThen ?_
  intro folders calmState state
  refine (Handled.follows_each containers folders calmState state).andThen ?_
  intro reports calmState state
  exact Handled.follows_ofResult handler _ calmState state

/-! ### Records that a run ends with -/

namespace Handled

/-- The run ends with a record that the handler fails on after it took those before. Up to there it
is the whole run. -/
structure Stopped (whole : List Event) (before : List (LinkRecord × LinkContext))
    (record : LinkRecord) (context : LinkContext) (text : String) (last : σ)
    (handled : Handled σ α) : Prop where
  cut : ∃ seen rest, whole = seen ++ .link record context :: rest ∧ Event.calls seen = before ∧
    handled.events = seen ++ [.link record context]
  result_eq : handled.result = .error (.handler context.place text)
  state_eq : handled.state = last

theorem Follows.stopped {whole : Handled τ α} {handled : Handled σ α}
    {before after : List (LinkRecord × LinkContext)} {record : LinkRecord} {context : LinkContext}
    {text : String} {state middle last : σ} (follows : Follows handler state whole handled)
    (calls : Event.calls whole.events = before ++ (record, context) :: after ∨
      Event.calls handled.events = before ++ (record, context) :: after)
    (taken : handler.Takes before state middle)
    (failed : handler record context middle = (some text, last)) :
    handled.Stopped whole.events before record context text last := by
  cases follows with
  | @all final all =>
    rw [or_self] at calls
    rw [calls] at all
    exact absurd all (taken.not_fails failed final)
  | @cut seen rest other place _ _ _ events took refused =>
    have whole_eq : Event.calls whole.events =
        Event.calls seen ++ (other, place) :: Event.calls rest := by
      rw [events, Event.calls_append]
      rfl
    have cut_eq : Event.calls (seen ++ [.link other place]) =
        Event.calls seen ++ (other, place) :: [] := by
      rw [Event.calls_append]
      rfl
    have first : ∃ later, before ++ (record, context) :: after =
        Event.calls seen ++ (other, place) :: later := by
      rcases calls with calls | calls
      · exact ⟨_, calls.symm.trans whole_eq⟩
      · exact ⟨_, calls.symm.trans cut_eq⟩
    obtain ⟨later, same⟩ := first
    obtain ⟨rfl, rfl, rfl, rfl, rfl⟩ := taken.first_unique failed took refused same
    exact ⟨⟨seen, rest, events, rfl, rfl⟩, rfl, rfl⟩

end Handled

end LinkArchive
