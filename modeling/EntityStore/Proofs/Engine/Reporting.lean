import EntityStore.Proofs.Engine.Conversation

namespace EntityStore

namespace Ending

def IsUnchanged (e : Failure) (x : Ending) : Prop := x = ⟨[], e⟩

/-- Whether a program ends by telling of a failure. If what was being done cannot be told, for a reason
that is given, it ends for that reason. -/
def IsReported (untold : Option Failure) (e : Failure) (x : Ending) : Prop :=
  match untold with
  | none => ∃ activity, x = ⟨[⟨.error, Program.failureMessage activity e⟩], e⟩
  | some f => x = ⟨[], f⟩

end Ending

/-- Whether none of the records of a computation is of the level of errors. -/
def Reported.IsQuiet {α : Type} (x : Reported α) : Prop := ∀ r ∈ x.records, r.level ≠ .error

namespace Reported.IsQuiet

variable {α β : Type}

theorem ofExcept (x : Except Failure α) : (Reported.ofExcept x).IsQuiet := by
  simp [IsQuiet, Reported.ofExcept]

theorem note {level : LogLevel} (h : level ≠ .error) (message : String) :
    (Reported.note level message).IsQuiet := by
  simpa [IsQuiet, Reported.note] using h

theorem bind {x : Reported α} {f : α → Reported β} (hx : x.IsQuiet) (hf : ∀ a, (f a).IsQuiet) :
    (x >>= f).IsQuiet := by
  change (x.andThen f).IsQuiet
  cases hout : x.outcome with
  | error e =>
    rw [Reported.andThen, hout]
    exact hx
  | ok a =>
    rw [Reported.andThen, hout]
    intro r hr
    rcases List.mem_append.mp hr with hr | hr
    · exact hx r hr
    · exact hf a r hr

end Reported.IsQuiet

namespace Program

variable {σ α β : Type} {engine : Engine σ}

/-- Whether a program ends at once, in one of some ways, where the engine fails to answer, and leaves no
record of the level of errors before that. Whether it may fail by itself, and what it comes to if it does
not, is given. -/
def Handles (ends : Failure → Ending → Prop) (mayFail : Prop) (post : α → Prop) : Program α → Prop
  | .done a => post a
  | .fail _ => mayFail
  | .note r next => r.level ≠ .error ∧ Handles ends mayFail post next
  | .openCollection _ _ next => Handles ends mayFail post next
  | .freshId next => ∀ o, Handles ends mayFail post (next o)
  | .ask r next =>
    (∀ e, ∃ x, ends e x ∧ next (.error e) = ended x) ∧
      ∀ reply, r.isShown reply = true → Handles ends mayFail post (next (.ok reply))

namespace Handles

variable {ends : Failure → Ending → Prop} {mayFail : Prop} {post : α → Prop} {next : β → Prop}
  {p : Program α} {f : α → Program β}

theorem bind (hp : Handles ends mayFail post p) (hf : ∀ a, post a → Handles ends mayFail next (f a)) :
    Handles ends mayFail next (p >>= f) := by
  change Handles ends mayFail next (andThen f p)
  induction p with
  | done a => exact hf a hp
  | fail e => exact hp
  | note r rest ih => exact ⟨hp.1, ih hp.2⟩
  | openCollection database collection rest ih => exact ih hp
  | freshId rest ih => exact fun o => ih o (hp o)
  | ask r rest ih =>
    refine ⟨fun e => ?_, fun reply hreply => ih (.ok reply) (hp.2 reply hreply)⟩
    obtain ⟨x, hx, hrest⟩ := hp.1 e
    refine ⟨x, hx, ?_⟩
    change andThen f (rest (.error e)) = ended x
    rw [hrest, andThen_ended]

theorem ofExcept {x : Except Failure α} (hok : ∀ a, x = .ok a → post a) (herror : ∀ e, x = .error e → mayFail) :
    Handles ends mayFail post (Program.ofExcept x) := by
  cases x with
  | ok a => exact hok a rfl
  | error e => exact herror e rfl

theorem bind_ofExcept {x : Except Failure α} (herror : ∀ e, x = .error e → mayFail)
    (hf : ∀ a, x = .ok a → Handles ends mayFail next (f a)) :
    Handles ends mayFail next (Program.ofExcept x >>= f) := by
  have hx : Handles ends mayFail (fun a => x = .ok a) (Program.ofExcept x) := ofExcept (fun _ h => h) herror
  exact hx.bind hf

theorem record {post : Unit → Prop} {level : LogLevel} {message : String} (hlevel : level ≠ .error) (h : post ()) :
    Handles ends mayFail post (Program.record level message) := ⟨hlevel, h⟩

theorem bind_record {g : Unit → Program β} {level : LogLevel} {message : String} (hlevel : level ≠ .error)
    (hf : Handles ends mayFail next (g ())) :
    Handles ends mayFail next (Program.record level message >>= g) := ⟨hlevel, hf⟩

theorem bind_opened {g : Unit → Program β} {database collection : String}
    (hf : Handles ends mayFail next (g ())) :
    Handles ends mayFail next (Program.opened database collection >>= g) := hf

theorem bind_ofReported {x : Reported α} (hquiet : x.IsQuiet) (herror : ∀ e, x.outcome = .error e → mayFail)
    (hf : ∀ a, x.outcome = .ok a → Handles ends mayFail next (f a)) :
    Handles ends mayFail next (Program.ofReported x >>= f) := by
  have hrecords : ∀ records : List LogRecord, (∀ r ∈ records, r.level ≠ .error) →
      Handles ends mayFail (fun a => x.outcome = .ok a)
        (records.foldr (fun r p => .note r p) (Program.ofExcept x.outcome)) := by
    intro records
    induction records with
    | nil => exact fun _ => ofExcept (fun _ h => h) herror
    | cons r records ih =>
      intro hlevels
      obtain ⟨hr, hrest⟩ := List.forall_mem_cons.mp hlevels
      exact ⟨hr, ih hrest⟩
  exact (hrecords x.records hquiet).bind hf

theorem request {r : Request} {post : r.Reply → Prop} (h : ∀ reply, r.isShown reply = true → post reply) :
    Handles Ending.IsUnchanged mayFail post (Program.request r) := ⟨fun e => ⟨⟨[], e⟩, rfl, rfl⟩, h⟩

theorem bind_request {r : Request} {f : r.Reply → Program β}
    (hf : ∀ reply, r.isShown reply = true → Handles Ending.IsUnchanged mayFail next (f reply)) :
    Handles Ending.IsUnchanged mayFail next (Program.request r >>= f) := (request fun _ h => h).bind hf

/-- A body that leaves the failures of the engine as they are ends in another way once it is told what was
being done. -/
theorem recordingFailure {message : Failure → Except Failure String} {fails : Prop}
    (hp : Handles Ending.IsUnchanged fails post p)
    (hends : ∀ e, ∃ x, ends e x ∧ recordingFailure message (.fail e : Program α) = ended x)
    (hfails : fails → ∀ e, Handles ends mayFail post (recordingFailure message (.fail e : Program α))) :
    Handles ends mayFail post (recordingFailure message p) := by
  induction p with
  | done a => exact hp
  | fail e => exact hfails hp e
  | note r rest ih => exact ⟨hp.1, ih hp.2⟩
  | openCollection database collection rest ih => exact ih hp
  | freshId rest ih => exact fun o => ih o (hp o)
  | ask r rest ih =>
    refine ⟨fun e => ?_, fun reply hreply => ih (.ok reply) (hp.2 reply hreply)⟩
    obtain ⟨_, rfl, hrest⟩ := hp.1 e
    obtain ⟨x, hx, hended⟩ := hends e
    refine ⟨x, hx, ?_⟩
    change Program.recordingFailure message (rest (.error e)) = ended x
    rw [hrest]
    exact hended

theorem during (shown : String) (hp : Handles Ending.IsUnchanged False post p) :
    Handles (Ending.IsReported none) mayFail post (Program.during (.ok shown) p) := by
  refine recordingFailure hp (fun e => ?_) False.elim
  exact ⟨⟨[⟨.error, failureMessage s!"MongoDB error during {shown}" e⟩], e⟩, ⟨_, rfl⟩, rfl⟩

theorem during_untold (f : Failure) (hp : Handles Ending.IsUnchanged True post p) :
    Handles (Ending.IsReported (some f)) True post (Program.during (.error f) p) :=
  recordingFailure hp (fun _ => ⟨⟨[], f⟩, rfl, rfl⟩) fun _ _ => trivial

end Handles

/-- Whether a program tells of each failure of the engine, whatever else it fails for. -/
abbrev IsReporting (untold : Option Failure) (p : Program α) : Prop :=
  Handles (Ending.IsReported untold) True (fun _ => True) p

namespace IsReporting

variable {untold : Option Failure} {p : Program α} {f : α → Program β}

theorem ofExcept (x : Except Failure α) : IsReporting untold (Program.ofExcept x) :=
  Handles.ofExcept (fun _ _ => trivial) fun _ _ => trivial

theorem bind_ofExcept {x : Except Failure α} (hf : ∀ a, x = .ok a → IsReporting untold (f a)) :
    IsReporting untold (Program.ofExcept x >>= f) := Handles.bind_ofExcept (fun _ _ => trivial) hf

theorem bind_ofReported {x : Reported α} (hquiet : x.IsQuiet) (hf : ∀ a, IsReporting untold (f a)) :
    IsReporting untold (Program.ofReported x >>= f) :=
  Handles.bind_ofReported hquiet (fun _ _ => trivial) fun a _ => hf a

theorem bind (hp : IsReporting untold p) (hf : ∀ a, IsReporting untold (f a)) :
    IsReporting untold (p >>= f) := Handles.bind hp fun a _ => hf a

end IsReporting

theorem errors_note {r : LogRecord} (h : r.level ≠ .error) (p : Program α) (s : Session σ) :
    ((Program.note r p).run engine s).errors = (p.run engine s).errors := by
  have hlevel : (r.level == .error) = false := by simpa using h
  change List.filter _ (r :: (p.run engine s).records) = _
  rw [List.filter_cons, hlevel]
  rfl

/-- What an engine that fails does to a run, and one that does not. -/
structure Reports (engine : Engine σ) (ends : Failure → Ending → Prop) (p : Program α) (s : Session σ) : Prop where
  failed : ∀ k x e, (p.conversation engine s.engine)[k]? = some x → x.failure? = some e →
    (p.conversation engine s.engine).length = k + 1 ∧
      ∃ y, ends e y ∧ (p.run engine s).outcome = .error y.failure ∧
        (p.run engine s).errors = y.records.filter fun r => r.level == .error
  unfailed : (∀ x ∈ p.conversation engine s.engine, x.failure? = none) → (p.run engine s).errors = []

namespace Reports

variable {ends : Failure → Ending → Prop} {r : Request} {next : Except Failure r.Reply → Program α}
  {s : Session σ} {state : σ}

/-- The engine fails at the first request, and the program ends. -/
theorem ask_error {e : Failure} (h : engine.answer r s.engine = (.error e, state)) {y : Ending} (hy : ends e y)
    (hnext : next (.error e) = ended y) : Reports engine ends (.ask r next) s := by
  have hrun : (Program.ask r next).run engine s = ((ended y).run engine ⟨state, s.isOpen⟩).after (.called r) := by
    rw [← hnext, run, h]
  have hconversation : (Program.ask r next).conversation engine s.engine = [⟨r, .error e⟩] := by
    rw [conversation, h, hnext, conversation_ended]
  constructor
  · intro k x f hx hf
    rw [hconversation, List.getElem?_singleton] at hx
    split at hx
    · next hk =>
      obtain rfl := Option.some.inj hx
      obtain rfl := Option.some.inj hf
      refine ⟨by simp [hconversation, hk], y, hy, ?_, ?_⟩
      · rw [hrun]
        exact outcome_ended y _
      · rw [hrun]
        exact congrArg (List.filter _) (records_ended y _)
    · exact absurd hx (by simp)
  · intro hanswered
    rw [hconversation] at hanswered
    exact absurd (hanswered ⟨r, .error e⟩ (by simp)) (by simp [Exchange.failure?])

/-- The engine answers the first request, and the rest of the program reports. -/
theorem ask_ok {reply : r.Reply} (h : engine.answer r s.engine = (.ok reply, state))
    (hrest : Reports engine ends (next (.ok reply)) ⟨state, s.isOpen⟩) : Reports engine ends (.ask r next) s := by
  have hrun : (Program.ask r next).run engine s =
      ((next (.ok reply)).run engine ⟨state, s.isOpen⟩).after (.called r) := by
    rw [run, h]
  have hconversation : (Program.ask r next).conversation engine s.engine =
      ⟨r, .ok reply⟩ :: (next (.ok reply)).conversation engine state := by
    rw [conversation, h]
  constructor
  · intro k x e hx he
    rw [hconversation] at hx
    cases k with
    | zero =>
      obtain rfl := Option.some.inj hx
      exact absurd he (by simp [Exchange.failure?])
    | succ k =>
      obtain ⟨hlength, hended⟩ := hrest.failed k x e hx he
      rw [hrun, hconversation, List.length_cons, hlength]
      exact ⟨rfl, hended⟩
  · intro hanswered
    rw [hconversation] at hanswered
    rw [hrun]
    exact hrest.unfailed (List.forall_mem_cons.mp hanswered).2

end Reports

/-- A program that handles the failures of the engine reports them in every run. -/
theorem Handles.reports {ends : Failure → Ending → Prop} {mayFail : Prop} {post : α → Prop} {p : Program α}
    (hp : Handles ends mayFail post p) (s : Session σ)
    (hshown : ∀ x ∈ p.conversation engine s.engine, x.isShown = true) : Reports engine ends p s := by
  induction p generalizing s with
  | done a => exact ⟨fun k x e hx => absurd hx (by simp [conversation]), fun _ => rfl⟩
  | fail e => exact ⟨fun k x e hx => absurd hx (by simp [conversation]), fun _ => rfl⟩
  | note r next ih =>
    obtain ⟨hfailed, hunfailed⟩ := ih hp.2 s hshown
    refine ⟨fun k x e hx he => ?_, fun h => (errors_note hp.1 next s).trans (hunfailed h)⟩
    rw [errors_note hp.1]
    exact hfailed k x e hx he
  | openCollection database collection next ih =>
    cases hopen : s.isOpen with
    | true =>
      have hrun : (openCollection database collection next).run engine s = next.run engine s := by
        rw [run, if_pos hopen]
      obtain ⟨hfailed, hunfailed⟩ := ih hp s hshown
      exact ⟨hrun ▸ hfailed, hrun ▸ hunfailed⟩
    | false =>
      have hrun : (openCollection database collection next).run engine s =
          (next.run engine ⟨s.engine, true⟩).after (.opened database collection) := by
        rw [run, if_neg (by simp [hopen])]
      obtain ⟨hfailed, hunfailed⟩ := ih hp ⟨s.engine, true⟩ hshown
      exact ⟨hrun ▸ hfailed, hrun ▸ hunfailed⟩
  | freshId next ih =>
    obtain ⟨hfailed, hunfailed⟩ := ih _ (hp _) ⟨(engine.freshId s.engine).2, s.isOpen⟩ hshown
    exact ⟨hfailed, hunfailed⟩
  | ask r next ih =>
    cases hanswer : engine.answer r s.engine with
    | mk reply state =>
      rw [conversation, hanswer] at hshown
      obtain ⟨hfirst, hrest⟩ := List.forall_mem_cons.mp hshown
      cases reply with
      | error e =>
        obtain ⟨y, hy, hnext⟩ := hp.1 e
        exact Reports.ask_error hanswer hy hnext
      | ok reply => exact Reports.ask_ok hanswer (ih _ (hp.2 reply hfirst) ⟨state, s.isOpen⟩ hrest)

end Program

end EntityStore
