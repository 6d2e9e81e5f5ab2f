import EntityStore.Proofs.Engine.Conversation

namespace EntityStore.Program

variable {σ α β : Type} {engine : Engine σ}

/-- What a program and an engine say to each other, what the program comes to, and how it leaves the engine. -/
structure Says (engine : Engine σ) (p : Program α) (before : σ) (said : List Exchange) (outcome : Except Failure α)
    (after : σ) : Prop extends Ends engine p before outcome after where
  conversation : p.conversation engine before = said

theorem conversation_bind_error {p : Program α} {f : α → Program β} {e : Failure} {before after : σ}
    (h : Ends engine p before (.error e) after) :
    (p >>= f).conversation engine before = p.conversation engine before := by
  have hrun := h.outcome true
  clear h
  change (andThen f p).conversation engine before = _
  induction p generalizing before with
  | done a => exact absurd hrun (by simp [run])
  | fail d => rfl
  | note r next ih => exact ih hrun
  | openCollection database collection next ih => exact ih hrun
  | freshId next ih => exact ih _ hrun
  | ask r next ih => exact congrArg _ (ih _ hrun)

theorem conversation_ofExcept (x : Except Failure α) (state : σ) : (ofExcept x).conversation engine state = [] := by
  cases x <;> rfl

theorem run_ofExcept (x : Except Failure α) (s : Session σ) : (ofExcept x).run engine s = ⟨x, [], s⟩ := by
  cases x <;> rfl

/-- What is made of a result makes a difference to nothing but the outcome. -/
theorem run_bind_made (p : Program α) (f : α → Except Failure β) (s : Session σ) :
    (p >>= fun a => ofExcept (f a)).run engine s =
      ⟨(p.run engine s).outcome >>= f, (p.run engine s).events, (p.run engine s).session⟩ := by
  rw [run_bind, Trace.andThen]
  cases (p.run engine s).outcome with
  | error e => rfl
  | ok a =>
    simp only [run_ofExcept, List.append_nil]
    rfl

theorem conversation_bind_made (p : Program α) (f : α → Except Failure β) (state : σ) :
    (p >>= fun a => ofExcept (f a)).conversation engine state = p.conversation engine state := by
  change (andThen (fun a => ofExcept (f a)) p).conversation engine state = _
  induction p generalizing state with
  | done a => exact conversation_ofExcept (f a) state
  | fail e => rfl
  | note r next ih => exact ih state
  | openCollection database collection next ih => exact ih state
  | freshId next ih => exact ih _ _
  | ask r next ih => exact congrArg _ (ih _ _)

theorem conversation_during (context : Except Failure String) (p : Program α) (state : σ) :
    (during context p).conversation engine state = p.conversation engine state := by
  have h : (during context p >>= pure).conversation engine state = (p >>= pure).conversation engine state :=
    conversation_bind_during context p pure state
  rwa [bind_pure, bind_pure] at h

namespace Says

variable {p : Program α} {f : α → Program β} {said rest : List Exchange} {before between after state : σ}
  {outcome : Except Failure β}

theorem done (a : α) (state : σ) : Says engine (.done a) state [] (.ok a) state := ⟨Ends.done a state, rfl⟩

theorem ofExcept (x : Except Failure α) (state : σ) : Says engine (Program.ofExcept x) state [] x state :=
  ⟨Ends.ofExcept x state, conversation_ofExcept x state⟩

theorem ofReported (x : Reported α) (state : σ) : Says engine (Program.ofReported x) state [] x.outcome state := by
  refine ⟨Ends.ofReported x state, ?_⟩
  obtain ⟨records, outcome⟩ := x
  induction records with
  | nil => exact conversation_ofExcept outcome state
  | cons r records ih => exact ih

theorem request {r : Request} {reply : Except Failure r.Reply} (h : engine.answer r before = (reply, after)) :
    Says engine (Program.request r) before [⟨r, reply⟩] reply after := by
  refine ⟨Ends.request h, ?_⟩
  change Program.conversation engine (.ask r Program.ofExcept) before = _
  rw [Program.conversation, h, conversation_ofExcept]

/-- A program that succeeds goes on from the engine it leaves. -/
theorem bind {a : α} (hp : Says engine p before said (.ok a) between)
    (hf : Says engine (f a) between rest outcome after) :
    Says engine (p >>= f) before (said ++ rest) outcome after := by
  refine ⟨hp.toEnds.bind hf.toEnds, ?_⟩
  rw [conversation_bind hp.toEnds, hp.conversation, hf.conversation]

theorem bind_error {e : Failure} (hp : Says engine p before said (.error e) after) :
    Says engine (p >>= f) before said (.error e) after := by
  refine ⟨hp.toEnds.bind_error, ?_⟩
  rw [conversation_bind_error hp.toEnds, hp.conversation]

theorem map {outcome : Except Failure α} (hp : Says engine p before said outcome after) (g : α → β) :
    Says engine (p >>= fun a => .done (g a)) before said (outcome.map g) after := by
  cases outcome with
  | ok a =>
    rw [← List.append_nil said]
    exact hp.bind (done (g a) after)
  | error e => exact hp.bind_error

theorem bind_ofExcept {x : Except Failure α} {a : α} (hx : x = .ok a)
    (hf : Says engine (f a) before said outcome after) :
    Says engine (Program.ofExcept x >>= f) before said outcome after := by
  subst hx
  exact hf

theorem bind_record {g : Unit → Program β} {level : LogLevel} {message : String}
    (hg : Says engine (g ()) before said outcome after) :
    Says engine (Program.record level message >>= g) before said outcome after :=
  ⟨(Ends.record level message before).bind hg.toEnds, hg.conversation⟩

theorem bind_opened {g : Unit → Program β} {database collection : String}
    (hg : Says engine (g ()) before said outcome after) :
    Says engine (Program.opened database collection >>= g) before said outcome after :=
  ⟨(Ends.opened database collection before).bind hg.toEnds, hg.conversation⟩

end Says

/-- What becomes of an answer that is told of: it is kept, unless what is told of it cannot be shown. -/
inductive IsTold (isShown : Bool) (answer : Except Failure α) : Except Failure α → Prop
  | kept (hshown : answer.isOk = true → isShown = true) : IsTold isShown answer answer
  | lost (e : Failure) (hshown : isShown = false) : IsTold isShown answer (.error e)

namespace IsTold

variable {isShown : Bool} {answer outcome : Except Failure α} {p : Program α} {said : List Exchange}
  {before after : σ}

theorem failed (isShown : Bool) (e : Failure) : IsTold isShown (.error e : Except Failure α) (.error e) :=
  .kept fun hok => absurd hok Bool.false_ne_true

theorem eq_of_isShown (h : IsTold isShown answer outcome) (hshown : isShown = true) : outcome = answer := by
  cases h with
  | kept => rfl
  | lost e hlost => exact absurd (hlost.symm.trans hshown) Bool.false_ne_true

/-- It comes to something exactly if the answer does and can be told of. -/
theorem eq_ok_iff {a : α} (h : IsTold isShown answer outcome) :
    outcome = .ok a ↔ isShown = true ∧ answer = .ok a := by
  cases h with
  | kept hshown =>
    constructor
    · intro hanswer
      exact ⟨hshown (by rw [hanswer]; rfl), hanswer⟩
    · exact And.right
  | lost e hlost =>
    constructor
    · intro hok
      cases hok
    · rintro ⟨hshown, -⟩
      exact absurd (hlost.symm.trans hshown) Bool.false_ne_true

theorem map (h : IsTold isShown answer outcome) (f : α → β) : IsTold isShown (answer.map f) (outcome.map f) := by
  cases h with
  | kept hshown =>
    apply kept
    cases answer with
    | ok a => exact fun _ => hshown rfl
    | error e => exact fun hok => absurd hok Bool.false_ne_true
  | lost e hshown => exact .lost e hshown

/-- What is told before the answer is passed on says nothing to the engine. -/
theorem exists_telling {x : Except Failure String} {f : String → Program α}
    (hx : ∀ e, x = .error e → isShown = false)
    (hf : ∀ shown, x = .ok shown →
      ∃ outcome, Says engine (f shown) before [] outcome before ∧ IsTold isShown answer outcome) :
    ∃ outcome, Says engine (ofExcept x >>= f) before [] outcome before ∧ IsTold isShown answer outcome := by
  cases x with
  | ok shown => exact hf shown rfl
  | error e => exact ⟨.error e, .ofExcept (.error e) before, .lost e (hx e rfl)⟩

/-- Nor does what is told of a failure; where that cannot be shown, nothing else comes of it. -/
theorem exists_during {context : Except Failure String} (hcontext : ∀ e, context = .error e → isShown = false)
    (hp : Says engine p before said outcome after) (h : IsTold isShown answer outcome) :
    ∃ told, Says engine (during context p) before said told after ∧ IsTold isShown answer told ∧
      ∀ e, context = .error e → told = .error e := by
  have hsaid := (conversation_during context p before).trans hp.conversation
  cases outcome with
  | ok a =>
    have hshown : isShown = true := (h.eq_ok_iff.mp rfl).1
    refine ⟨.ok a, ⟨hp.toEnds.during context, hsaid⟩, h, fun e he => ?_⟩
    exact absurd ((hcontext e he).symm.trans hshown) Bool.false_ne_true
  | error e =>
    have hstate (isOpen : Bool) : ((during context p).run engine ⟨before, isOpen⟩).session.engine = after := by
      rw [during, session_recordingFailure, hp.state]
    cases context with
    | ok shown =>
      have htold (isOpen : Bool) : ((during (.ok shown) p).run engine ⟨before, isOpen⟩).outcome = .error e := by
        rw [during, outcome_recordingFailure, hp.outcome]
        rfl
      exact ⟨.error e, ⟨⟨htold, hstate⟩, hsaid⟩, h, fun d hd => by cases hd⟩
    | error d =>
      have htold (isOpen : Bool) : ((during (.error d) p).run engine ⟨before, isOpen⟩).outcome = .error d := by
        rw [during, outcome_recordingFailure, hp.outcome]
        rfl
      exact ⟨.error d, ⟨⟨htold, hstate⟩, hsaid⟩, .lost d (hcontext d rfl), fun _ hd => congrArg _ (Except.error.inj hd)⟩

end IsTold

end EntityStore.Program
