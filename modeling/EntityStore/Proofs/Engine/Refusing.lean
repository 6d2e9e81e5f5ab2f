import EntityStore.Proofs.Engine.Conversation
import EntityStore.Proofs.Refusal

namespace EntityStore

/-- What a check comes to. It refuses nothing that is good, and where it can be made it accepts all that is
good and refuses all else. -/
structure Checks {α : Type} (x : Except Failure α) (usable good : Prop) : Prop where
  never : good → NeverRefuses x
  accepts : usable → good → ∃ a, x = .ok a
  refuses : usable → ¬good → ∃ e, x = .error e ∧ e.isRefusal = true

namespace Checks

variable {α β : Type}

/-- A check that refuses nothing. -/
theorem ofNeverRefuses {x : Except Failure α} {usable : Prop} (h : NeverRefuses x)
    (haccepts : usable → ∃ a, x = .ok a) : Checks x usable True :=
  ⟨fun _ => h, fun husable _ => haccepts husable, fun _ hno => absurd trivial hno⟩

theorem imp {x : Except Failure α} {usable usable' good good' : Prop} (h : Checks x usable good)
    (husable : usable' → usable) (hgood : good ↔ good') : Checks x usable' good' :=
  ⟨fun h' => h.never (hgood.mpr h'), fun hu h' => h.accepts (husable hu) (hgood.mpr h'),
    fun hu hno => h.refuses (husable hu) fun hg => hno (hgood.mp hg)⟩

theorem bind {x : Except Failure α} {f : α → Except Failure β} {usable usable' good good' : Prop}
    (hx : Checks x usable good) (hf : ∀ a, Checks (f a) usable' good') :
    Checks (x >>= f) (usable ∧ usable') (good ∧ good') := by
  constructor
  · exact fun hgood => (hx.never hgood.1).bind fun a _ => (hf a).never hgood.2
  · rintro ⟨husable, husable'⟩ ⟨hgood, hgood'⟩
    obtain ⟨a, rfl⟩ := hx.accepts husable hgood
    exact (hf a).accepts husable' hgood'
  · rintro ⟨husable, husable'⟩ hno
    by_cases hgood : good
    · obtain ⟨a, rfl⟩ := hx.accepts husable hgood
      exact (hf a).refuses husable' fun hgood' => hno ⟨hgood, hgood'⟩
    · obtain ⟨e, rfl, he⟩ := hx.refuses husable hgood
      exact ⟨e, rfl, he⟩

theorem map {x : Except Failure α} {usable good : Prop} (hx : Checks x usable good) (f : α → β) :
    Checks (x >>= fun a => .ok (f a)) usable good := by
  have hboth := hx.bind fun a => ofNeverRefuses (.ok (f a)) fun _ : True => ⟨_, rfl⟩
  exact hboth.imp (fun h => ⟨h, trivial⟩) (iff_of_eq (and_true good))

/-- A check of each of some elements. -/
theorem mapM {f : α → Except Failure β} {usable good : α → Prop} {xs : List α}
    (h : ∀ x ∈ xs, Checks (f x) (usable x) (good x)) :
    Checks (xs.mapM f) (∀ x ∈ xs, usable x) (∀ x ∈ xs, good x) := by
  constructor
  · exact fun hgood => NeverRefuses.mapM fun x hx => (h x hx).never (hgood x hx)
  · intro husable hgood
    cases hxs : xs.mapM f with
    | ok ys => exact ⟨ys, rfl⟩
    | error e =>
      obtain ⟨x, hx, he⟩ := Outcome.exists_mem_of_mapM_error hxs
      obtain ⟨y, hy⟩ := (h x hx).accepts (husable x hx) (hgood x hx)
      exact (Outcome.ok_ne_error hy he).elim
  · intro husable hno
    obtain ⟨x, hx, hbad⟩ : ∃ x ∈ xs, ¬good x := by simpa using hno
    obtain ⟨e, he, _⟩ := (h x hx).refuses (husable x hx) hbad
    cases hxs : xs.mapM f with
    | ok ys =>
      obtain ⟨y, hy⟩ := Outcome.mapM_ok_mem hxs x hx
      exact (Outcome.ok_ne_error hy he).elim
    | error d =>
      -- The element that makes the whole fail need not be the one that is bad, but it is bad as well.
      obtain ⟨y, hy, hd⟩ := Outcome.exists_mem_of_mapM_error hxs
      refine ⟨d, rfl, ?_⟩
      by_cases hgood : good y
      · obtain ⟨z, hz⟩ := (h y hy).accepts (husable y hy) hgood
        exact (Outcome.ok_ne_error hz hd).elim
      · obtain ⟨d', hd', hrefusal⟩ := (h y hy).refuses (husable y hy) hgood
        obtain rfl := Except.error.inj (hd'.symm.trans hd)
        exact hrefusal

end Checks

/-- A run in which nothing happens but that records are left. -/
def Trace.IsIdle {σ α : Type} (t : Trace σ α) : Prop := t.events = t.records.map .logged

namespace Program

variable {σ α β : Type} {engine : Engine σ}

/-- Whether a program refuses what it is given before anything else happens. -/
def Refuses (p : Program α) : Prop := ∃ x : Ending, x.failure.isRefusal = true ∧ p = ended x

namespace Refuses

variable {f : α → Program β}

theorem bind {p : Program α} (h : Refuses p) : Refuses (p >>= f) := by
  obtain ⟨x, hx, rfl⟩ := h
  exact ⟨x, hx, andThen_ended f x⟩

theorem bind_ok {x : Except Failure α} {a : α} (hx : x = .ok a) (h : Refuses (f a)) :
    Refuses (ofExcept x >>= f) := by
  subst hx
  exact h

/-- A program whose check can be made refuses if the check does, or what comes after it. -/
theorem check {x : Except Failure α} {usable good : Prop} (hx : Checks x usable good) (husable : usable)
    (hf : good → ∀ a, Refuses (f a)) : Refuses (ofExcept x >>= f) := by
  by_cases hgood : good
  · obtain ⟨a, rfl⟩ := hx.accepts husable hgood
    exact hf hgood a
  · obtain ⟨e, rfl, he⟩ := hx.refuses husable hgood
    exact ⟨⟨[], e⟩, he, rfl⟩

theorem checkReported {x : Reported α} {usable good : Prop} (hx : Checks x.outcome usable good)
    (husable : usable) (hf : good → ∀ a, Refuses (f a)) : Refuses (ofReported x >>= f) := by
  obtain ⟨records, outcome⟩ := x
  induction records with
  | nil => exact check hx husable hf
  | cons r records ih =>
    obtain ⟨y, hy, hended⟩ := ih hx
    exact ⟨⟨r :: y.records, y.failure⟩, hy, congrArg (Program.note r) hended⟩

theorem isIdle {p : Program α} (h : Refuses p) (s : Session σ) :
    ∃ e, (p.run engine s).outcome = .error e ∧ e.isRefusal = true ∧ (p.run engine s).IsIdle := by
  obtain ⟨x, hx, rfl⟩ := h
  refine ⟨x.failure, outcome_ended x s, hx, ?_⟩
  obtain ⟨records, e⟩ := x
  induction records with
  | nil => rfl
  | cons r records ih => exact congrArg (List.cons (Event.logged r)) (ih hx)

end Refuses

/-- Whether a program refuses only if something is bad, and never once it has asked something, as long as the
engine does not refuse. -/
def Guards : Prop → Program α → Prop
  | _, .done _ => True
  | bad, .fail e => e.isRefusal = true → bad
  | bad, .note _ next => Guards bad next
  | _, .openCollection _ _ next => Guards False next
  | bad, .freshId next => ∀ o, Guards bad (next o)
  | _, .ask _ next => ∀ reply, NeverRefuses reply → Guards False (next reply)

namespace Guards

variable {bad : Prop} {p : Program α} {f : α → Program β}

theorem mono {bad' : Prop} (h : bad → bad') (hp : Guards bad p) : Guards bad' p := by
  induction p with
  | done a => exact trivial
  | fail e => exact fun he => h (hp he)
  | note r next ih => exact ih hp
  | openCollection database collection next ih => exact hp
  | freshId next ih => exact fun o => ih o (hp o)
  | ask r next ih => exact hp

/-- What follows a program that asks may refuse nothing any more. -/
theorem bind (hp : Guards bad p) (hf : ∀ a, Guards False (f a)) : Guards bad (p >>= f) := by
  change Guards bad (andThen f p)
  induction p generalizing bad with
  | done a => exact (hf a).mono False.elim
  | fail e => exact hp
  | note r next ih => exact ih hp
  | openCollection database collection next ih => exact ih hp
  | freshId next ih => exact fun o => ih o (hp o)
  | ask r next ih => exact fun reply hreply => ih reply (hp reply hreply)

theorem ofExcept {x : Except Failure α} (hx : NeverRefuses x) : Guards bad (Program.ofExcept x) := by
  cases x with
  | ok a => exact trivial
  | error e => exact fun he => absurd (hx e rfl) (by simp [he])

theorem bind_ofExcept {x : Except Failure α} (hx : NeverRefuses x) (hf : ∀ a, x = .ok a → Guards bad (f a)) :
    Guards bad (Program.ofExcept x >>= f) := by
  cases x with
  | ok a => exact hf a rfl
  | error e => exact fun he => absurd (hx e rfl) (by simp [he])

theorem check {x : Except Failure α} {usable good : Prop} (hx : Checks x usable good) (hbad : ¬good → bad)
    (hf : ∀ a, x = .ok a → Guards bad (f a)) : Guards bad (Program.ofExcept x >>= f) := by
  cases hout : x with
  | ok a => exact hf a hout
  | error e =>
    intro he
    exact hbad fun hgood => by simp [hx.never hgood e hout] at he

theorem checkReported {x : Reported α} {usable good : Prop} (hx : Checks x.outcome usable good)
    (hbad : ¬good → bad) (hf : ∀ a, x.outcome = .ok a → Guards bad (f a)) :
    Guards bad (Program.ofReported x >>= f) := by
  obtain ⟨records, outcome⟩ := x
  induction records with
  | nil => exact check hx hbad hf
  | cons r records ih => exact ih hx hf

theorem bind_ofReported {x : Reported α} (hx : NeverRefuses x.outcome)
    (hf : ∀ a, x.outcome = .ok a → Guards bad (f a)) : Guards bad (Program.ofReported x >>= f) :=
  checkReported (Checks.ofNeverRefuses hx False.elim) (fun hno => absurd trivial hno) hf

theorem record {level : LogLevel} {message : String} {g : Unit → Program β} (h : Guards bad (g ())) :
    Guards bad (Program.record level message >>= g) := h

theorem opened {database collection : String} {g : Unit → Program β} (h : Guards False (g ())) :
    Guards bad (Program.opened database collection >>= g) := h

theorem request (r : Request) : Guards bad (Program.request r) := fun _ hreply => ofExcept hreply

theorem during {activity : Except Failure String} (hactivity : NeverRefuses activity) (hp : Guards bad p) :
    Guards bad (Program.during activity p) := by
  change Guards bad (recordingFailure _ p)
  induction p generalizing bad with
  | done a => exact trivial
  | fail e =>
    cases activity with
    | ok shown => exact hp
    | error d => exact fun hd => absurd (hactivity d rfl) (by simp [hd])
  | note r next ih => exact ih hp
  | openCollection database collection next ih => exact ih hp
  | freshId next ih => exact fun o => ih o (hp o)
  | ask r next ih => exact fun reply hreply => ih reply (hp reply hreply)

/-- A refusal in a run has its reason, and nothing has been asked then. -/
theorem refusal (hp : Guards bad p) (s : Session σ)
    (hengine : ∀ x ∈ p.conversation engine s.engine, NeverRefuses x.reply) {e : Failure}
    (he : (p.run engine s).outcome = .error e) (hrefusal : e.isRefusal = true) :
    bad ∧ (p.run engine s).IsIdle := by
  induction p generalizing bad s with
  | done a => exact absurd he (by simp [run])
  | fail d =>
    obtain rfl := Except.error.inj he
    exact ⟨hp hrefusal, rfl⟩
  | note r next ih =>
    obtain ⟨hbad, hidle⟩ := ih hp s hengine he
    exact ⟨hbad, congrArg (List.cons (Event.logged r)) hidle⟩
  | openCollection database collection next ih =>
    rw [run] at he
    split at he
    · exact (ih hp s hengine he).1.elim
    · exact (ih hp ⟨s.engine, true⟩ hengine he).1.elim
  | freshId next ih => exact ih _ (hp _) ⟨(engine.freshId s.engine).2, s.isOpen⟩ hengine he
  | ask r next ih =>
    obtain ⟨hfirst, hrest⟩ := List.forall_mem_cons.mp hengine
    exact (ih _ (hp _ hfirst) ⟨(engine.answer r s.engine).2, s.isOpen⟩ hrest he).1.elim

end Guards

end Program

end EntityStore
