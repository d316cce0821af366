import LinkArchive.Proofs.Release.Walk
import LinkArchive.Release.Visit
import Mathlib.Data.List.Forall2

/-!
# Handled runs, one after the other

Laws of runs that are put together: what came of a run that went well or failed is what came of its
parts, `Handled.eq_ok_of_each` and `Handled.eq_error_of_each`. Groups of things are done as all that
is in them: `Handled.each_flatMap`. Events that are known beforehand can be gone through in parts or
as one: `Handled.ofEvents_append`, `Handled.each_ofEvents`.
-/

namespace LinkArchive

theorem Event.calls_append (events others : List Event) :
    calls (events ++ others) = calls events ++ calls others := List.filterMap_append

namespace Handled

variable {σ α β γ : Type} {handler : Handler σ}

/-! ### Parts -/

theorem andThen_ofResult (value : α) (state : σ) (next : α → σ → Handled σ β) :
    (ofResult (.ok value) state).andThen next = next value state := rfl

theorem andThen_assoc (first : Handled σ α) (next : α → σ → Handled σ β)
    (last : β → σ → Handled σ γ) :
    (first.andThen next).andThen last = first.andThen fun value state =>
      (next value state).andThen last := by
  rcases first with ⟨_ | value, events, state⟩
  · rfl
  · simp only [andThen]
    cases (next value state).result with
    | error => rfl
    | ok => simp only [List.append_assoc]

theorem andThen_behind (events : List Event) (handled : Handled σ α)
    (next : α → σ → Handled σ β) :
    (handled.behind events).andThen next = (handled.andThen next).behind events := by
  rcases handled with ⟨_ | value, _, _⟩
  · rfl
  · simp only [behind, andThen, List.append_assoc]

theorem eq_ok_of_andThen {first : Handled σ α} {next : α → σ → Handled σ β} {value : β}
    (went : (first.andThen next).result = .ok value) :
    ∃ middle, first.result = .ok middle ∧ (next middle first.state).result = .ok value ∧
      (first.andThen next).events = first.events ++ (next middle first.state).events := by
  rcases first with ⟨_ | middle, events, state⟩
  · cases went
  · exact ⟨middle, rfl, went, rfl⟩

/-- What came of things that were all done, one after the other. -/
theorem eq_ok_of_each {step : α → σ → Handled σ β} {values : List α} {state : σ}
    {results : List β} (went : (each step values state).result = .ok results) :
    ∃ came : List (β × List Event), results = came.map (·.1) ∧
      (each step values state).events = came.flatMap (·.2) ∧
      List.Forall₂ (fun value came => ∃ before, (step value before).result = .ok came.1 ∧
        (step value before).events = came.2) values came := by
  induction values generalizing state results with
  | nil =>
    cases went
    exact ⟨[], rfl, rfl, .nil⟩
  | cons value rest ih =>
    obtain ⟨first, done, went, events⟩ := eq_ok_of_andThen went
    obtain ⟨others, also, went, more⟩ := eq_ok_of_andThen went
    cases went
    obtain ⟨came, rfl, told, all⟩ := ih also
    refine ⟨(first, (step value state).events) :: came, rfl, ?_, .cons ⟨state, done, rfl⟩ all⟩
    rw [each, events, more, told]
    simp [ofResult]

theorem eq_error_of_andThen {first : Handled σ α} {next : α → σ → Handled σ β}
    {error : ReleaseError} (stopped : (first.andThen next).result = .error error)
    (lasting : ∀ value state fault, (next value state).result ≠ .error fault) :
    first.result = .error error ∧ (first.andThen next).events = first.events ∧
      (first.andThen next).state = first.state := by
  rcases first with ⟨fault | value, events, state⟩
  · cases stopped
    exact ⟨rfl, rfl, rfl⟩
  · exact absurd stopped (lasting value state error)

theorem each_cons_eq (step : α → σ → Handled σ β) (value : α) (rest : List α) (state : σ) :
    each step (value :: rest) state =
      match (step value state).result with
      | .error error => ⟨.error error, (step value state).events, (step value state).state⟩
      | .ok result =>
        let others := each step rest (step value state).state
        ⟨others.result.map (result :: ·), (step value state).events ++ others.events,
          others.state⟩ := by
  rw [each, andThen]
  cases (step value state).result with
  | error error => rfl
  | ok result =>
    dsimp only
    rcases each step rest (step value state).state with ⟨_ | results, later, last⟩
    · rfl
    · simp only [andThen, ofResult, List.append_nil]
      rfl

theorem each_cons_of_ok {step : α → σ → Handled σ β} {value : α} {state : σ} {result : β}
    (done : (step value state).result = .ok result) (values : List α) :
    let first := step value state
    let others := each step values first.state
    (each step (value :: values) state).result = others.result.map (result :: ·) ∧
      (each step (value :: values) state).events = first.events ++ others.events ∧
      (each step (value :: values) state).state = others.state := by
  rw [each_cons_eq, done]
  exact ⟨rfl, rfl, rfl⟩

/-- What was done one after the other went well up to the one that failed, which was the last. -/
theorem eq_error_of_each {step : α → σ → Handled σ β} {values : List α} {state : σ}
    {error : ReleaseError} (stopped : (each step values state).result = .error error) :
    ∃ before value after, values = before ++ value :: after ∧
      let past := each step before state
      let last := step value past.state
      (∃ results, past.result = .ok results) ∧ last.result = .error error ∧
        (each step values state).events = past.events ++ last.events ∧
        (each step values state).state = last.state := by
  induction values generalizing state with
  | nil => cases stopped
  | cons value values ih =>
    cases done : (step value state).result with
    | error fault =>
      refine ⟨[], value, values, rfl, ⟨[], rfl⟩, ?_⟩
      have same : each step (value :: values) state =
          ⟨.error fault, (step value state).events, (step value state).state⟩ := by
        rw [each, andThen, done]
      rw [same] at stopped ⊢
      cases stopped
      exact ⟨done, rfl, rfl⟩
    | ok result =>
      obtain ⟨results, events, final⟩ := each_cons_of_ok done values
      rw [stopped] at results
      cases others : (each step values (step value state).state).result with
      | ok fine =>
        rw [others] at results
        cases results
      | error fault =>
        rw [others] at results
        cases results
        obtain ⟨before, failing, after, rfl, ⟨fine, past⟩, last, told, reached⟩ := ih others
        obtain ⟨results, earlier, between⟩ := each_cons_of_ok done before
        rw [past] at results
        refine ⟨value :: before, failing, after, rfl, ⟨_, results⟩, ?_⟩
        rw [events, earlier, between, told, final, reached, List.append_assoc]
        exact ⟨last, rfl, rfl⟩

/-! ### Lists of things -/

section Lists

variable {step : α → σ → Handled σ β}

theorem each_map (place : γ → α) (values : List γ) (state : σ) :
    each step (values.map place) state = each (fun value => step (place value)) values state := by
  induction values generalizing state with
  | nil => rfl
  | cons value rest ih =>
    rw [List.map_cons, each, each]
    congr 1
    funext first state
    rw [ih]

theorem andThen_ok (handled : Handled σ α) :
    (handled.andThen fun value state => ofResult (.ok value) state) = handled := by
  rcases handled with ⟨_ | value, events, state⟩
  · rfl
  · simp only [andThen, ofResult, List.append_nil]

theorem each_append (values others : List α) (state : σ) :
    each step (values ++ others) state =
      (each step values state).andThen fun first state =>
        (each step others state).andThen fun second state =>
          ofResult (.ok (first ++ second)) state := by
  induction values generalizing state with
  | nil => exact (andThen_ok _).symm
  | cons value rest ih =>
    rw [List.cons_append, each, each, andThen_assoc]
    congr 1
    funext first state
    rw [ih, andThen_assoc, andThen_assoc]
    congr 1
    funext results state
    rw [andThen_ofResult, andThen_assoc]
    rfl

/-- Groups of things are done in turn as all that is in them. -/
theorem each_flatMap {group : γ → σ → Handled σ (List β)} {members : γ → List α}
    {groups : List γ}
    (inTurn : ∀ value ∈ groups, ∀ state, group value state = each step (members value) state)
    (state : σ) :
    ((each group groups state).andThen fun results state => ofResult (.ok results.flatten) state) =
      each step (groups.flatMap members) state := by
  induction groups generalizing state with
  | nil => rfl
  | cons value rest ih =>
    have later := ih fun value member => inTurn value (List.mem_cons_of_mem _ member)
    rw [List.flatMap_cons, each_append, each, inTurn value List.mem_cons_self, andThen_assoc]
    congr 1
    funext first state
    rw [← later, andThen_assoc, andThen_assoc]
    rfl

end Lists

/-! ### Events -/

theorem ofEvents_append (events others : List Event) (state : σ) :
    ofEvents handler (events ++ others) state =
      (ofEvents handler events state).andThen fun _ => ofEvents handler others := by
  induction events generalizing state with
  | nil => rfl
  | cons event events ih =>
    cases event with
    | link record context =>
      rcases answer : handler record context state with ⟨_ | text, next⟩
      · simp only [List.cons_append, ofEvents, answer, ih next]
        exact (andThen_behind [.link record context] _ _).symm
      · simp only [List.cons_append, ofEvents, answer, andThen]
    | diagnostic found =>
      simp only [List.cons_append, ofEvents, ih state]
      exact (andThen_behind [.diagnostic found] _ _).symm
    | memberDone report =>
      simp only [List.cons_append, ofEvents, ih state]
      exact (andThen_behind [.memberDone report] _ _).symm

/-- Events without records pass the handler by. -/
theorem ofEvents_of_calls {events : List Event} (quiet : Event.calls events = []) (state : σ) :
    ofEvents handler events state = (ofResult (.ok ()) state).behind events := by
  induction events with
  | nil => rfl
  | cons event events ih =>
    cases event with
    | link record context => cases quiet
    | diagnostic found =>
      simp only [ofEvents, ih quiet]
      rfl
    | memberDone report =>
      simp only [ofEvents, ih quiet]
      rfl

theorem events_of_ok {events : List Event} {state : σ}
    (taken : (ofEvents handler events state).result = .ok ()) :
    (ofEvents handler events state).events = events := by
  have part := taken_ofEvents handler events state
  generalize ofEvents handler events state = handled at part taken ⊢
  cases part with
  | all => rfl
  | upTo => cases taken

/-- One after the other, things that are known beforehand are gone through as one. -/
theorem each_ofEvents {step : α → σ → Handled σ β} (known : α → β × List Event)
    (steps : ∀ value state, step value state =
      (ofEvents handler (known value).2 state).andThen fun _ => ofResult (.ok (known value).1))
    (values : List α) (state : σ) :
    each step values state =
      (ofEvents handler ((values.map known).flatMap (·.2)) state).andThen fun _ =>
        ofResult (.ok ((values.map known).map (·.1))) := by
  induction values generalizing state with
  | nil => rfl
  | cons value rest ih =>
    rw [each, steps, List.map_cons, List.flatMap_cons, ofEvents_append, andThen_assoc,
      andThen_assoc]
    congr 1
    funext _ next
    rw [andThen_ofResult, ih, andThen_assoc]
    rfl

end Handled

end LinkArchive
