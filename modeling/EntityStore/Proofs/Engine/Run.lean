import EntityStore.Engine.Run

namespace EntityStore

variable {σ α β : Type} {engine : Engine σ}

def Trace.andThen (t : Trace σ α) (f : α → Session σ → Trace σ β) : Trace σ β :=
  match t.outcome with
  | .error e => ⟨.error e, t.events, t.session⟩
  | .ok a => ⟨(f a t.session).outcome, t.events ++ (f a t.session).events, (f a t.session).session⟩

theorem Trace.andThen_after (event : Event) (t : Trace σ α) (f : α → Session σ → Trace σ β) :
    (t.after event).andThen f = (t.andThen f).after event := by
  cases h : t.outcome <;> simp [Trace.andThen, after, h]

namespace Program

theorem run_andThen (f : α → Program β) (p : Program α) (s : Session σ) :
    (andThen f p).run engine s = (p.run engine s).andThen fun a s => (f a).run engine s := by
  induction p generalizing s with
  | done a => rfl
  | fail e => rfl
  | note r next ih => simp only [andThen, run, ih, Trace.andThen_after]
  | openCollection database collection next ih =>
    rw [andThen, run, run]
    split
    · exact ih s
    · rw [ih, Trace.andThen_after]
  | freshId next ih => exact ih _ _
  | ask r next ih => simp only [andThen, run, ih, Trace.andThen_after]

theorem run_bind (p : Program α) (f : α → Program β) (s : Session σ) :
    (p >>= f).run engine s = (p.run engine s).andThen fun a s => (f a).run engine s :=
  run_andThen f p s

/-- Telling what was being done changes the outcome only if that cannot be told. -/
theorem outcome_recordingFailure (message : Failure → Except Failure String) (p : Program α)
    (s : Session σ) : ((recordingFailure message p).run engine s).outcome =
      match (p.run engine s).outcome with
      | .ok a => .ok a
      | .error e => match message e with
        | .ok _ => .error e
        | .error f => .error f := by
  induction p generalizing s with
  | done a => rfl
  | fail e => cases h : message e <;> simp [recordingFailure, run, h, Trace.after]
  | note r next ih => exact ih s
  | openCollection database collection next ih =>
    rw [recordingFailure, run, run]
    split
    · exact ih s
    · exact ih _
  | freshId next ih => exact ih _ _
  | ask r next ih => exact ih _ _

theorem session_recordingFailure (message : Failure → Except Failure String) (p : Program α)
    (s : Session σ) : ((recordingFailure message p).run engine s).session = (p.run engine s).session := by
  induction p generalizing s with
  | done a => rfl
  | fail e => cases h : message e <;> simp [recordingFailure, run, h, Trace.after]
  | note r next ih => exact ih s
  | openCollection database collection next ih =>
    rw [recordingFailure, run, run]
    split
    · exact ih s
    · exact ih _
  | freshId next ih => exact ih _ _
  | ask r next ih => exact ih _ _

/-- What a program comes to, and how it leaves an engine. -/
structure Ends (engine : Engine σ) (p : Program α) (before : σ) (outcome : Except Failure α)
    (after : σ) : Prop where
  outcome : ∀ isOpen, (p.run engine ⟨before, isOpen⟩).outcome = outcome
  state : ∀ isOpen, (p.run engine ⟨before, isOpen⟩).session.engine = after

namespace Ends

variable {p : Program α} {f : α → Program β} {before between after : σ}

theorem done (a : α) (state : σ) : Ends engine (.done a) state (.ok a) state :=
  ⟨fun _ => rfl, fun _ => rfl⟩

theorem ofExcept (x : Except Failure α) (state : σ) :
    Ends engine (Program.ofExcept x) state x state := by
  cases x <;> exact ⟨fun _ => rfl, fun _ => rfl⟩

theorem record (level : LogLevel) (message : String) (state : σ) :
    Ends engine (Program.record level message) state (.ok ()) state :=
  ⟨fun _ => rfl, fun _ => rfl⟩

theorem opened (database collection : String) (state : σ) :
    Ends engine (Program.opened database collection) state (.ok ()) state := by
  constructor <;> intro isOpen <;> cases isOpen <;> rfl

theorem request {r : Request} {reply : Except Failure r.Reply}
    (h : engine.answer r before = (reply, after)) :
    Ends engine (Program.request r) before reply after := by
  constructor
  · intro isOpen
    cases reply <;> simp [Program.request, run, h, Program.ofExcept, Trace.after]
  · intro isOpen
    cases reply <;> simp [Program.request, run, h, Program.ofExcept, Trace.after]

theorem ofReported (x : Reported α) (state : σ) :
    Ends engine (Program.ofReported x) state x.outcome state := by
  have hrun (isOpen : Bool) : ∀ records : List LogRecord,
      ((records.foldr (fun r p => .note r p) (Program.ofExcept x.outcome)).run engine
        ⟨state, isOpen⟩).outcome = x.outcome ∧
      ((records.foldr (fun r p => .note r p) (Program.ofExcept x.outcome)).run engine
        ⟨state, isOpen⟩).session.engine = state := by
    intro records
    induction records with
    | nil => exact ⟨(ofExcept x.outcome state).outcome isOpen, (ofExcept x.outcome state).state isOpen⟩
    | cons r records ih => exact ih
  exact ⟨fun isOpen => (hrun isOpen x.records).1, fun isOpen => (hrun isOpen x.records).2⟩

/-- A program that succeeds goes on from the engine it leaves. -/
theorem bind {a : α} {outcome : Except Failure β} (hp : Ends engine p before (.ok a) between)
    (hf : Ends engine (f a) between outcome after) : Ends engine (p >>= f) before outcome after := by
  have hsession (isOpen : Bool) : (p.run engine ⟨before, isOpen⟩).session =
      ⟨between, (p.run engine ⟨before, isOpen⟩).session.isOpen⟩ := by
    rw [← hp.state isOpen]
  constructor
  · intro isOpen
    rw [run_bind, Trace.andThen, hp.outcome, hsession]
    exact hf.outcome _
  · intro isOpen
    rw [run_bind, Trace.andThen, hp.outcome, hsession]
    exact hf.state _

theorem bind_ofExcept {x : Except Failure α} {a : α} {outcome : Except Failure β} (hx : x = .ok a)
    (hf : Ends engine (f a) before outcome after) :
    Ends engine (Program.ofExcept x >>= f) before outcome after :=
  bind (hx ▸ ofExcept x before) hf

theorem bind_ofReported {x : Reported α} {a : α} {outcome : Except Failure β} (hx : x.outcome = .ok a)
    (hf : Ends engine (f a) before outcome after) :
    Ends engine (Program.ofReported x >>= f) before outcome after :=
  bind (hx ▸ ofReported x before) hf

theorem bind_error {e : Failure} (hp : Ends engine p before (.error e) after) :
    Ends engine (p >>= f) before (.error e) after := by
  constructor
  · intro isOpen
    rw [run_bind, Trace.andThen, hp.outcome]
  · intro isOpen
    rw [run_bind, Trace.andThen, hp.outcome]
    exact hp.state isOpen

/-- What comes after a program and leaves the engine alone leaves it as the program does. -/
theorem exists_bind {outcome : Except Failure α} (hp : Ends engine p before outcome after)
    (hf : ∀ a, ∃ outcome', Ends engine (f a) after outcome' after) :
    ∃ outcome', Ends engine (p >>= f) before outcome' after := by
  cases outcome with
  | error e => exact ⟨_, bind_error hp⟩
  | ok a =>
    obtain ⟨outcome', h⟩ := hf a
    exact ⟨outcome', bind hp h⟩

theorem during {a : α} (context : Except Failure String) (hp : Ends engine p before (.ok a) after) :
    Ends engine (Program.during context p) before (.ok a) after := by
  constructor
  · intro isOpen
    rw [Program.during, outcome_recordingFailure, hp.outcome]
  · intro isOpen
    rw [Program.during, session_recordingFailure, hp.state]

theorem during_error {e : Failure} (context : Except Failure String)
    (hp : Ends engine p before (.error e) after) :
    ∃ f, Ends engine (Program.during context p) before (.error f) after := by
  have hstate (isOpen : Bool) : ((Program.during context p).run engine
      ⟨before, isOpen⟩).session.engine = after := by
    rw [Program.during, session_recordingFailure, hp.state]
  cases context with
  | ok shown =>
    exact ⟨e, fun isOpen => by rw [Program.during, outcome_recordingFailure, hp.outcome]; rfl, hstate⟩
  | error f =>
    exact ⟨f, fun isOpen => by rw [Program.during, outcome_recordingFailure, hp.outcome]; rfl, hstate⟩

theorem exists_during {outcome : Except Failure α} (context : Except Failure String)
    (hp : Ends engine p before outcome after) :
    ∃ outcome', Ends engine (Program.during context p) before outcome' after := by
  cases outcome with
  | ok a => exact ⟨_, hp.during context⟩
  | error e =>
    obtain ⟨f, h⟩ := hp.during_error context
    exact ⟨_, h⟩

end Ends

/-- A program succeeds, with a result and an engine of which something is known. -/
def Succeeds (engine : Engine σ) (p : Program α) (before : σ) (post : α → σ → Prop) : Prop :=
  ∃ a after, Ends engine p before (.ok a) after ∧ post a after

namespace Succeeds

variable {p : Program α} {f : α → Program β} {before between : σ} {post : α → σ → Prop}
  {next : β → σ → Prop} {a : α}

theorem done (h : post a before) : Succeeds engine (.done a) before post :=
  ⟨a, before, Ends.done a before, h⟩

theorem bind_ends (hp : Ends engine p before (.ok a) between) (hf : Succeeds engine (f a) between next) :
    Succeeds engine (p >>= f) before next := by
  obtain ⟨b, after, hends, hnext⟩ := hf
  exact ⟨b, after, hp.bind hends, hnext⟩

theorem bind (hp : Succeeds engine p before post)
    (hf : ∀ a between, post a between → Succeeds engine (f a) between next) :
    Succeeds engine (p >>= f) before next := by
  obtain ⟨a, between, hends, hpost⟩ := hp
  exact bind_ends hends (hf a between hpost)

theorem bind_ofExcept {x : Except Failure α} (hx : x = .ok a) (hf : Succeeds engine (f a) before next) :
    Succeeds engine (Program.ofExcept x >>= f) before next := by
  obtain ⟨b, after, hends, hnext⟩ := hf
  exact ⟨b, after, Ends.bind_ofExcept hx hends, hnext⟩

theorem bind_ofReported {x : Reported α} (hx : x.outcome = .ok a)
    (hf : Succeeds engine (f a) before next) :
    Succeeds engine (Program.ofReported x >>= f) before next := by
  obtain ⟨b, after, hends, hnext⟩ := hf
  exact ⟨b, after, Ends.bind_ofReported hx hends, hnext⟩

theorem bind_record {f : Unit → Program β} {level : LogLevel} {message : String}
    (hf : Succeeds engine (f ()) before next) :
    Succeeds engine (Program.record level message >>= f) before next :=
  bind_ends (Ends.record level message before) hf

theorem bind_opened {f : Unit → Program β} {database collection : String}
    (hf : Succeeds engine (f ()) before next) :
    Succeeds engine (Program.opened database collection >>= f) before next :=
  bind_ends (Ends.opened database collection before) hf

theorem during (context : Except Failure String) (hp : Succeeds engine p before post) :
    Succeeds engine (Program.during context p) before post := by
  obtain ⟨a, after, hends, hpost⟩ := hp
  exact ⟨a, after, hends.during context, hpost⟩

end Succeeds

/-- A program leaves an engine of which something is known, whether it succeeds or fails. -/
def Leaves (engine : Engine σ) (p : Program α) (before : σ) (post : σ → Prop) : Prop :=
  ∃ outcome after, Ends engine p before outcome after ∧ post after

namespace Leaves

variable {p : Program α} {f : α → Program β} {before between : σ} {post : σ → Prop} {a : α}

theorem done (a : α) (h : post before) : Leaves engine (.done a) before post := ⟨_, _, Ends.done a before, h⟩

theorem ofExcept (x : Except Failure α) (h : post before) : Leaves engine (Program.ofExcept x) before post :=
  ⟨_, _, Ends.ofExcept x before, h⟩

theorem record (level : LogLevel) (message : String) (h : post before) :
    Leaves engine (Program.record level message) before post :=
  ⟨_, _, Ends.record level message before, h⟩

theorem bind_ends (hp : Ends engine p before (.ok a) between) (hf : Leaves engine (f a) between post) :
    Leaves engine (p >>= f) before post := by
  obtain ⟨outcome, after, hends, hpost⟩ := hf
  exact ⟨outcome, after, hp.bind hends, hpost⟩

theorem bind_ofExcept {x : Except Failure α} (hx : x = .ok a) (hf : Leaves engine (f a) before post) :
    Leaves engine (Program.ofExcept x >>= f) before post :=
  bind_ends (hx ▸ Ends.ofExcept x before) hf

theorem bind_opened {f : Unit → Program β} {database collection : String} (hf : Leaves engine (f ()) before post) :
    Leaves engine (Program.opened database collection >>= f) before post :=
  bind_ends (Ends.opened database collection before) hf

theorem bind_request {r : Request} {reply : r.Reply} {f : r.Reply → Program β}
    (h : engine.answer r before = (.ok reply, between)) (hf : Leaves engine (f reply) between post) :
    Leaves engine (Program.request r >>= f) before post :=
  bind_ends (Ends.request h) hf

/-- What comes next starts from such an engine, or does not come at all. -/
theorem bind (hp : Leaves engine p before post) (hf : ∀ a after, post after → Leaves engine (f a) after post) :
    Leaves engine (p >>= f) before post := by
  obtain ⟨outcome, between, hends, hpost⟩ := hp
  cases outcome with
  | error e => exact ⟨_, between, hends.bind_error, hpost⟩
  | ok a => exact bind_ends hends (hf a between hpost)

theorem during (context : Except Failure String) (hp : Leaves engine p before post) :
    Leaves engine (Program.during context p) before post := by
  obtain ⟨outcome, after, hends, hpost⟩ := hp
  obtain ⟨told, hduring⟩ := hends.exists_during context
  exact ⟨told, after, hduring, hpost⟩

end Leaves

theorem Succeeds.leaves {p : Program α} {before : σ} {post : α → σ → Prop} {left : σ → Prop}
    (h : Succeeds engine p before post) (hleft : ∀ a after, post a after → left after) :
    Leaves engine p before left := by
  obtain ⟨a, after, hends, hpost⟩ := h
  exact ⟨_, after, hends, hleft a after hpost⟩

end Program

end EntityStore
