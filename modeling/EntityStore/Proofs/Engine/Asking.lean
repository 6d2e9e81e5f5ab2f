import EntityStore.Proofs.Engine.Conversation

namespace EntityStore.Program

variable {σ α β : Type} {engine : Engine σ} {allowed : Request → Prop}

/-- Whether all requests of a program are allowed, whatever is answered to them. -/
def Asks (allowed : Request → Prop) : Program α → Prop
  | .done _ => True
  | .fail _ => True
  | .note _ next => Asks allowed next
  | .openCollection _ _ next => Asks allowed next
  | .freshId next => ∀ o, Asks allowed (next o)
  | .ask r next => allowed r ∧ ∀ reply, Asks allowed (next reply)

/-- Whether all that a program can come to has a property, whatever is answered to its requests. -/
def Yields (post : α → Prop) : Program α → Prop
  | .done a => post a
  | .fail _ => True
  | .note _ next => Yields post next
  | .openCollection _ _ next => Yields post next
  | .freshId next => ∀ o, Yields post (next o)
  | .ask _ next => ∀ reply, Yields post (next reply)

namespace Yields

variable {post : α → Prop} {next : β → Prop} {p : Program α} {f : α → Program β}

theorem of_forall (h : ∀ a, post a) : Yields post p := by
  induction p with
  | done a => exact h a
  | fail e => exact trivial
  | note r rest ih => exact ih
  | openCollection database collection rest ih => exact ih
  | freshId rest ih => exact ih
  | ask r rest ih => exact ih

theorem mono {weaker : α → Prop} (hp : Yields post p) (h : ∀ a, post a → weaker a) : Yields weaker p := by
  induction p with
  | done a => exact h a hp
  | fail e => exact trivial
  | note r rest ih => exact ih hp
  | openCollection database collection rest ih => exact ih hp
  | freshId rest ih => exact fun o => ih o (hp o)
  | ask r rest ih => exact fun reply => ih reply (hp reply)

theorem bind (hp : Yields post p) (hf : ∀ a, post a → Yields next (f a)) : Yields next (p >>= f) := by
  change Yields next (andThen f p)
  induction p with
  | done a => exact hf a hp
  | fail e => exact trivial
  | note r rest ih => exact ih hp
  | openCollection database collection rest ih => exact ih hp
  | freshId rest ih => exact fun o => ih o (hp o)
  | ask r rest ih => exact fun reply => ih reply (hp reply)

theorem bind_ofExcept {x : Except Failure α} (hf : ∀ a, x = .ok a → Yields next (f a)) :
    Yields next (Program.ofExcept x >>= f) := by
  cases x with
  | ok a => exact hf a rfl
  | error e => exact trivial

end Yields

namespace Asks

variable {p : Program α} {f : α → Program β}

/-- What comes after a program may depend on what it comes to. -/
theorem bind_yields {post : α → Prop} (hp : Asks allowed p) (hpost : Yields post p)
    (hf : ∀ a, post a → Asks allowed (f a)) : Asks allowed (p >>= f) := by
  change Asks allowed (andThen f p)
  induction p with
  | done a => exact hf a hpost
  | fail e => exact trivial
  | note r next ih => exact ih hp hpost
  | openCollection database collection next ih => exact ih hp hpost
  | freshId next ih => exact fun o => ih o (hp o) (hpost o)
  | ask r next ih => exact ⟨hp.1, fun reply => ih reply (hp.2 reply) (hpost reply)⟩

theorem bind (hp : Asks allowed p) (hf : ∀ a, Asks allowed (f a)) : Asks allowed (p >>= f) :=
  bind_yields hp (Yields.of_forall fun _ => True.intro) fun a _ => hf a

theorem ofExcept (x : Except Failure α) : Asks allowed (Program.ofExcept x) := by
  cases x <;> exact trivial

theorem bind_ofExcept {x : Except Failure α} (hf : ∀ a, x = .ok a → Asks allowed (f a)) :
    Asks allowed (Program.ofExcept x >>= f) := by
  cases x with
  | ok a => exact hf a rfl
  | error e => exact trivial

theorem bind_ofReported {x : Reported α} (hf : ∀ a, x.outcome = .ok a → Asks allowed (f a)) :
    Asks allowed (Program.ofReported x >>= f) := by
  obtain ⟨records, outcome⟩ := x
  induction records with
  | nil => exact bind_ofExcept hf
  | cons r records ih => exact ih hf

theorem record (level : LogLevel) (message : String) : Asks allowed (Program.record level message) := trivial

theorem opened (database collection : String) : Asks allowed (Program.opened database collection) := trivial

theorem request {r : Request} (h : allowed r) : Asks allowed (Program.request r) :=
  ⟨h, fun reply => ofExcept reply⟩

theorem bind_record {level : LogLevel} {message : String} {g : Unit → Program β} (hg : Asks allowed (g ())) :
    Asks allowed (Program.record level message >>= g) := hg

theorem bind_opened {database collection : String} {g : Unit → Program β} (hg : Asks allowed (g ())) :
    Asks allowed (Program.opened database collection >>= g) := hg

theorem bind_request {r : Request} {g : r.Reply → Program β} (hr : allowed r) (hg : ∀ reply, Asks allowed (g reply)) :
    Asks allowed (Program.request r >>= g) := bind (request hr) hg

theorem during (activity : Except Failure String) (hp : Asks allowed p) :
    Asks allowed (Program.during activity p) := by
  change Asks allowed (recordingFailure _ p)
  induction p with
  | done a => exact trivial
  | fail e => cases activity <;> exact trivial
  | note r next ih => exact ih hp
  | openCollection database collection next ih => exact ih hp
  | freshId next ih => exact fun o => ih o (hp o)
  | ask r next ih => exact ⟨hp.1, fun reply => ih reply (hp.2 reply)⟩

theorem conversation (hp : Asks allowed p) (state : σ) :
    ∀ x ∈ p.conversation engine state, allowed x.request := by
  induction p generalizing state with
  | done a => exact List.forall_mem_nil _
  | fail e => exact List.forall_mem_nil _
  | note r next ih => exact ih hp state
  | openCollection database collection next ih => exact ih hp state
  | freshId next ih => exact ih _ (hp _) _
  | ask r next ih => exact List.forall_mem_cons.mpr ⟨hp.1, ih _ (hp.2 _) _⟩

/-- A program that may ask nothing says nothing to the engine. -/
theorem silent (hp : Asks (fun _ => False) p) (state : σ) : p.conversation engine state = [] :=
  List.eq_nil_iff_forall_not_mem.mpr fun x hx => hp.conversation state x hx

theorem requests (hp : Asks allowed p) (s : Session σ) : ∀ r ∈ (p.run engine s).requests, allowed r := by
  rw [requests_run]
  intro r hr
  obtain ⟨x, hx, rfl⟩ := List.mem_map.mp hr
  exact hp.conversation s.engine x hx

end Asks

end EntityStore.Program
