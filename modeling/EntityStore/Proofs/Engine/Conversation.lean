import EntityStore.Proofs.Engine.Run
import EntityStore.Value.Display

namespace EntityStore

/-- A request, and what the engine answers to it. -/
structure Exchange where
  request : Request
  reply : Except Failure request.Reply

/-- Whether what is told of a reply, before the next request is made, can be shown. -/
def Request.isShown : (r : Request) → r.Reply → Bool
  | .insertOne _, id => id.display.isOk
  | .bulkWrite _ _, counts =>
    counts.inserted.display.isOk && counts.matched.display.isOk && counts.upserted.display.isOk
  | _, _ => true

namespace Exchange

/-- The failure of the engine to answer. -/
def failure? (x : Exchange) : Option Failure :=
  match x.reply with
  | .ok _ => none
  | .error e => some e

def isShown (x : Exchange) : Bool :=
  match x.reply with
  | .ok reply => x.request.isShown reply
  | .error _ => true

/-- Whether the engine answers, with what can be shown. -/
def isAnswered (x : Exchange) : Bool :=
  match x.reply with
  | .ok reply => x.request.isShown reply
  | .error _ => false

end Exchange

/-- The records of the level of errors. -/
def Trace.errors {σ α : Type} (t : Trace σ α) : List LogRecord :=
  t.records.filter fun r => r.level == .error

namespace Program

variable {σ α β : Type} (engine : Engine σ)

def conversation : Program α → σ → List Exchange
  | .done _, _ => []
  | .fail _, _ => []
  | .note _ next, state => conversation next state
  | .openCollection _ _ next, state => conversation next state
  | .freshId next, state => conversation (next (engine.freshId state).1) (engine.freshId state).2
  | .ask r next, state =>
    ⟨r, (engine.answer r state).1⟩ ::
      conversation (next (engine.answer r state).1) (engine.answer r state).2

variable {engine}

theorem requests_run (p : Program α) (s : Session σ) :
    (p.run engine s).requests = (p.conversation engine s.engine).map (·.request) := by
  induction p generalizing s with
  | done a => rfl
  | fail e => rfl
  | note r next ih => exact ih s
  | openCollection database collection next ih =>
    rw [run, conversation]
    split
    · exact ih s
    · exact ih _
  | freshId next ih => exact ih _ _
  | ask r next ih =>
    have hrest := ih (engine.answer r s.engine).1 ⟨(engine.answer r s.engine).2, s.isOpen⟩
    rw [conversation, List.map_cons, ← hrest]
    rfl

theorem conversation_bind {p : Program α} {f : α → Program β} {a : α} {before after : σ}
    (h : Ends engine p before (.ok a) after) : (p >>= f).conversation engine before =
      p.conversation engine before ++ (f a).conversation engine after := by
  have hrun := h.outcome true
  have hstate := h.state true
  clear h
  change (andThen f p).conversation engine before = _
  induction p generalizing before with
  | done b =>
    obtain rfl := Except.ok.inj hrun
    obtain rfl := hstate
    rfl
  | fail e => exact absurd hrun (by simp [run])
  | note r next ih => exact ih hrun hstate
  | openCollection database collection next ih => exact ih hrun hstate
  | freshId next ih => exact ih _ hrun hstate
  | ask r next ih =>
    rw [andThen, conversation, conversation, List.cons_append]
    exact congrArg _ (ih _ hrun hstate)

theorem conversation_bind_ofExcept {x : Except Failure α} {f : α → Program β} {a : α} (hx : x = .ok a) (state : σ) :
    (ofExcept x >>= f).conversation engine state = (f a).conversation engine state := by
  subst hx
  rfl

theorem conversation_bind_ofReported {x : Reported α} {f : α → Program β} {a : α} (hx : x.outcome = .ok a)
    (state : σ) : (ofReported x >>= f).conversation engine state = (f a).conversation engine state := by
  obtain ⟨records, outcome⟩ := x
  induction records with
  | nil => exact conversation_bind_ofExcept hx state
  | cons r records ih => exact ih hx

/-- What is told of a failure is not told to the engine. -/
theorem conversation_bind_during (context : Except Failure String) (p : Program α) (f : α → Program β) (state : σ) :
    (during context p >>= f).conversation engine state = (p >>= f).conversation engine state := by
  change (andThen f (recordingFailure _ p)).conversation engine state = (andThen f p).conversation engine state
  induction p generalizing state with
  | done a => rfl
  | fail e => cases context <;> rfl
  | note r next ih => exact ih state
  | openCollection database collection next ih => exact ih state
  | freshId next ih => exact ih _ _
  | ask r next ih => exact congrArg _ (ih _ _)

/-- What comes next is said after what is said already. -/
theorem conversation_prefix_bind (p : Program α) (f : α → Program β) (state : σ) :
    p.conversation engine state <+: (p >>= f).conversation engine state := by
  change _ <+: (andThen f p).conversation engine state
  induction p generalizing state with
  | done a => exact List.nil_prefix
  | fail e => exact List.nil_prefix
  | note r next ih => exact ih state
  | openCollection database collection next ih => exact ih state
  | freshId next ih => exact ih _ _
  | ask r next ih => exact (List.prefix_cons_inj _).mpr (ih _ _)

/-- A program whose requests are answered goes on with the answer to its first one. -/
theorem conversation_bind_request {r : Request} {f : r.Reply → Program β} {state : σ}
    (h : ∀ x ∈ (request r >>= f).conversation engine state, x.isAnswered = true) :
    ∃ reply after, engine.answer r state = (.ok reply, after) ∧ r.isShown reply = true ∧
      (request r >>= f).conversation engine state = ⟨r, .ok reply⟩ :: (f reply).conversation engine after ∧
      ∀ x ∈ (f reply).conversation engine after, x.isAnswered = true := by
  have hfirst (reply : Except Failure r.Reply) (after : σ) (hreply : engine.answer r state = (reply, after)) :
      (request r >>= f).conversation engine state =
        ⟨r, reply⟩ :: (ofExcept reply >>= f).conversation engine after := by
    change conversation engine (.ask r fun reply => andThen f (ofExcept reply)) state = _
    rw [conversation, hreply]
    rfl
  cases hanswer : engine.answer r state with
  | mk reply after =>
    rw [hfirst reply after hanswer] at h ⊢
    obtain ⟨hshown, hrest⟩ := List.forall_mem_cons.mp h
    cases reply with
    | ok reply => exact ⟨reply, after, rfl, hshown, rfl, hrest⟩
    | error e => exact absurd hshown Bool.false_ne_true

end Program

/-- How a program ends: the records that it leaves, and its failure. -/
structure Ending where
  records : List LogRecord
  failure : Failure

namespace Program

variable {σ α β : Type} {engine : Engine σ}

def ended (x : Ending) : Program α := x.records.foldr (fun r p => .note r p) (.fail x.failure)

theorem andThen_ended (f : α → Program β) (x : Ending) : andThen f (ended x) = ended x := by
  obtain ⟨records, e⟩ := x
  induction records with
  | nil => rfl
  | cons r records ih => exact congrArg (Program.note r) ih

theorem outcome_ended (x : Ending) (s : Session σ) :
    ((ended x : Program α).run engine s).outcome = .error x.failure := by
  obtain ⟨records, e⟩ := x
  induction records with
  | nil => rfl
  | cons r records ih => exact ih

theorem records_ended (x : Ending) (s : Session σ) :
    ((ended x : Program α).run engine s).records = x.records := by
  obtain ⟨records, e⟩ := x
  induction records with
  | nil => rfl
  | cons r records ih => exact congrArg (List.cons r) ih

theorem conversation_ended (x : Ending) (state : σ) : (ended x : Program α).conversation engine state = [] := by
  obtain ⟨records, e⟩ := x
  induction records with
  | nil => rfl
  | cons r records ih => exact ih

end Program

end EntityStore
