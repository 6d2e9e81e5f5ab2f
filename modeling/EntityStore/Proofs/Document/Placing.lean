import EntityStore.Proofs.Dictionary
import EntityStore.Proofs.Document.Stored
import EntityStore.Proofs.Path
import EntityStore.Proofs.Value.Equality

namespace EntityStore

/-- Neither of two names leads to the other or to a place inside it. -/
def Path.Apart (s t : String) : Prop := ¬ofText s <+: ofText t ∧ ¬ofText t <+: ofText s

theorem Path.Apart.symm {s t : String} (h : Apart s t) : Apart t s := ⟨h.2, h.1⟩

theorem Path.Apart.ne {s t : String} (h : Apart s t) : s ≠ t := by
  rintro rfl
  exact h.1 (List.prefix_refl _)

/-- The field at the top of a document in which a dotted name starts. -/
def Path.start (s : String) : String := (ofText s).headD ""

theorem Path.exists_ofText (s : String) : ∃ p, ofText s = start s :: p := by
  rw [start]
  cases hs : ofText s with
  | nil => exact absurd hs (ofText_ne_nil s)
  | cons t p => exact ⟨p, rfl⟩

namespace Document

variable {d e : Document} {v : Value} {p q : Path} {s : String}

theorem get?_insert_text_self (s : String) (v : Value) (d : Document) :
    Dictionary.get? (.text s) (Dictionary.insert (.text s) v d) = some v :=
  Dictionary.get?_insert_self (by simp) v d

theorem get?_insert_text_of_ne {s t : String} (h : s ≠ t) (v : Value) (d : Document) :
    Dictionary.get? (.text t) (Dictionary.insert (.text s) v d) = Dictionary.get? (.text t) d := by
  apply Dictionary.get?_insert_of_ne
  · intro k hk
    obtain rfl := (Value.beq_text k s).mp hk
    simpa using h
  · simpa using h

/-- The document that a field leads into. One that is missing counts as empty. -/
def branch? : Option Value → Option (DocumentKind × Document)
  | none => some (.plain, [])
  | some (.document kind fields) => some (kind, fields)
  | some _ => none

/-- Sets the value at the end of a path. Missing documents on the way are created, and anything else
stands in the way. -/
def place : Path → Value → Document → Option Document
  | [], _, _ => none
  | [s], v, d => some (Dictionary.insert (.text s) v d)
  | s :: t :: p, v, d => do
    let (kind, fields) ← branch? (Dictionary.get? (.text s) d)
    let fields ← place (t :: p) v fields
    some (Dictionary.insert (.text s) (.document kind fields) d)

/-- Nothing stands in the way of a path: where it leads on, there are documents that can be changed, or
nothing yet. -/
def IsOpen : Path → Document → Prop
  | [], _ => False
  | [_], _ => True
  | s :: t :: p, d => ∃ kind fields, branch? (Dictionary.get? (.text s) d) = some (kind, fields) ∧
      kind ≠ .readOnly ∧ IsOpen (t :: p) fields

theorem place_cons {t : String} :
    place (s :: t :: p) v d = some e ↔ ∃ kind fields changed,
      branch? (Dictionary.get? (.text s) d) = some (kind, fields) ∧
      place (t :: p) v fields = some changed ∧
      Dictionary.insert (.text s) (.document kind changed) d = e := by
  simp [place, Option.bind_eq_some_iff]

@[simp]
theorem valueAt?_one (s : String) (d : Document) :
    valueAt? (Path.keys [s]) d = Dictionary.get? (.text s) d := by
  cases h : Dictionary.get? (.text s) d <;> simp [Path.keys, valueAt?, h]

theorem valueAt?_branch {t : String} {kind : DocumentKind} {fields : Document}
    (h : branch? (Dictionary.get? (.text s) d) = some (kind, fields)) :
    valueAt? (Path.keys (s :: t :: p)) d = valueAt? (Path.keys (t :: p)) fields := by
  cases hs : Dictionary.get? (.text s) d with
  | none =>
    rw [hs, branch?, Option.some.injEq, Prod.mk.injEq] at h
    simp [Path.keys, valueAt?, hs, ← h.2, Dictionary.get?]
  | some v =>
    cases v with
    | document _ _ =>
      rw [hs, branch?, Option.some.injEq, Prod.mk.injEq] at h
      simp [Path.keys, valueAt?, hs, h.2]
    | _ => simp [hs, branch?] at h

theorem valueAt?_congr (h : Dictionary.get? (.text s) e = Dictionary.get? (.text s) d) :
    valueAt? (Path.keys (s :: p)) e = valueAt? (Path.keys (s :: p)) d := by
  simp [Path.keys, valueAt?, h]

theorem isOpen_congr (h : Dictionary.get? (.text s) e = Dictionary.get? (.text s) d) :
    IsOpen (s :: p) e ↔ IsOpen (s :: p) d := by
  cases p <;> simp [IsOpen, h]

theorem isOpen_nil (hp : p ≠ []) : IsOpen p [] := by
  induction p with
  | nil => exact absurd rfl hp
  | cons s p ih =>
    cases p with
    | nil => trivial
    | cons t p => exact ⟨.plain, [], rfl, by decide, ih (by simp)⟩

theorem place_of_isOpen (v : Value) (h : IsOpen p d) : ∃ e, place p v d = some e := by
  induction p generalizing d with
  | nil => exact h.elim
  | cons s p ih =>
    cases p with
    | nil => exact ⟨_, rfl⟩
    | cons t p =>
      obtain ⟨kind, fields, hbranch, _, hopen⟩ := h
      obtain ⟨changed, hplace⟩ := ih hopen
      exact ⟨_, place_cons.mpr ⟨kind, fields, changed, hbranch, hplace, rfl⟩⟩

theorem place_ne_nil (h : place p v d = some e) : e ≠ [] := by
  cases p with
  | nil => simp [place] at h
  | cons s p =>
    cases p with
    | nil =>
      rw [place, Option.some.injEq] at h
      exact h ▸ Dictionary.insert_ne_nil
    | cons t p =>
      obtain ⟨kind, fields, changed, _, _, rfl⟩ := place_cons.mp h
      exact Dictionary.insert_ne_nil

theorem valueAt?_place (h : place p v d = some e) : valueAt? p.keys e = some v := by
  induction p generalizing d e with
  | nil => simp [place] at h
  | cons s p ih =>
    cases p with
    | nil =>
      rw [place, Option.some.injEq] at h
      rw [← h, valueAt?_one, get?_insert_text_self]
    | cons t p =>
      obtain ⟨kind, fields, changed, _, hplace, rfl⟩ := place_cons.mp h
      rw [valueAt?_branch (by rw [get?_insert_text_self]; rfl)]
      exact ih hplace

theorem get?_place_of_ne {u : String} (h : place (s :: p) v d = some e) (hsu : s ≠ u) :
    Dictionary.get? (.text u) e = Dictionary.get? (.text u) d := by
  cases p with
  | nil =>
    rw [place, Option.some.injEq] at h
    rw [← h, get?_insert_text_of_ne hsu]
  | cons t p =>
    obtain ⟨kind, fields, changed, _, _, rfl⟩ := place_cons.mp h
    exact get?_insert_text_of_ne hsu _ _

theorem valueAt?_place_of_apart (h : place p v d = some e) (hpq : ¬p <+: q) (hqp : ¬q <+: p) :
    valueAt? q.keys e = valueAt? q.keys d := by
  induction p generalizing q d e with
  | nil => simp [place] at h
  | cons s p ih =>
    cases q with
    | nil => exact absurd (List.nil_prefix) hqp
    | cons u q =>
      by_cases hsu : s = u
      -- The paths part later on, so neither ends here.
      · subst hsu
        match p, q with
        | [], _ => exact absurd (by simp [List.cons_prefix_cons]) hpq
        | _ :: _, [] => exact absurd (by simp [List.cons_prefix_cons]) hqp
        | t :: p, u :: q =>
          obtain ⟨kind, fields, changed, hbranch, hplace, rfl⟩ := place_cons.mp h
          rw [valueAt?_branch (by rw [get?_insert_text_self]; rfl), valueAt?_branch hbranch]
          exact ih hplace (by simpa [List.cons_prefix_cons] using hpq)
            (by simpa [List.cons_prefix_cons] using hqp)
      · exact valueAt?_congr (get?_place_of_ne h hsu)

/-- Setting a value only closes paths that lead on from it. -/
theorem isOpen_place (h : place p v d = some e) (hq : p <+: q → q = p) (hopen : IsOpen q d) :
    IsOpen q e := by
  induction p generalizing q d e with
  | nil => simp [place] at h
  | cons s p ih =>
    match q, hopen with
    | [u], _ => trivial
    | u :: w :: q, hopen =>
      by_cases hsu : s = u
      · subst hsu
        cases p with
        | nil => exact absurd (hq (by simp [List.cons_prefix_cons])) (by simp)
        | cons t p =>
          obtain ⟨kind, fields, changed, hbranch, hplace, rfl⟩ := place_cons.mp h
          obtain ⟨kind', fields', hbranch', hkind, hrest⟩ := hopen
          rw [hbranch] at hbranch'
          obtain ⟨rfl, rfl⟩ := Prod.mk.inj (Option.some.inj hbranch')
          refine ⟨kind, changed, by rw [get?_insert_text_self]; rfl, hkind, ih hplace ?_ hrest⟩
          intro hbegins
          simpa [List.cons_prefix_cons] using hq (by simpa [List.cons_prefix_cons] using hbegins)
      · exact (isOpen_congr (get?_place_of_ne h hsu)).mpr hopen

def setField (d : Document) (f : Value × Value) : Option Document :=
  match f.1 with
  | .text name => d.place (Path.ofText name) f.2
  | _ => none

def setFields (fields d : Document) : Option Document := fields.foldlM setField d

abbrev named (fields : List (String × Value)) : Document := fields.map fun f => (.text f.1, f.2)

theorem get?_named {es : List (String × Value)} (h : es.Pairwise fun e f => e.1 ≠ f.1) {e : String × Value}
    (he : e ∈ es) : Dictionary.get? (.text e.1) (named es) = some e.2 := by
  induction es with
  | nil => simp at he
  | cons f es ih =>
    obtain ⟨hf, hrest⟩ := List.pairwise_cons.mp h
    rw [named, List.map_cons, Dictionary.get?]
    rcases List.mem_cons.mp he with rfl | he
    · simp
    · rw [if_neg (by simpa using hf e he)]
      exact ih hrest he

theorem exists_of_get?_named {es : List (String × Value)} (h : Dictionary.get? (.text s) (named es) = some v) :
    (s, v) ∈ es := by
  obtain ⟨key, hkey, hmem⟩ := Dictionary.exists_mem_of_get? h
  obtain rfl := (Value.beq_text key s).mp hkey
  obtain ⟨e, he, heq⟩ := List.mem_map.mp hmem
  obtain ⟨hname, rfl⟩ := Prod.mk.inj heq
  rwa [← Value.text.inj hname]

/-- Whether nothing stands in the way of a dotted name. -/
def Accepts (d : Document) (field : String) : Prop := IsOpen (Path.ofText field) d

theorem accepts_nil (field : String) : Accepts [] field :=
  isOpen_nil (Path.ofText_ne_nil field)

theorem accepts_setField {f : String × Value} {field : String}
    (h : setField d (.text f.1, f.2) = some e) (hfield : field = f.1 ∨ Path.Apart f.1 field)
    (hd : d.Accepts field) : e.Accepts field := by
  refine isOpen_place h (fun hbegins => ?_) hd
  rcases hfield with rfl | hapart
  · rfl
  · exact absurd hbegins hapart.1

theorem accepts_congr {field : String}
    (h : Dictionary.get? (.text (Path.start field)) e = Dictionary.get? (.text (Path.start field)) d) :
    e.Accepts field ↔ d.Accepts field := by
  obtain ⟨p, hp⟩ := Path.exists_ofText field
  rw [Accepts, Accepts, hp]
  exact isOpen_congr h

/-- Setting fields changes nothing at the top but where their names start. -/
theorem get?_setFields_of_ne {fields : List (String × Value)} {top : String}
    (hfields : ∀ f ∈ fields, Path.start f.1 ≠ top) (h : setFields (named fields) d = some e) :
    Dictionary.get? (.text top) e = Dictionary.get? (.text top) d := by
  induction fields generalizing d with
  | nil =>
    rw [setFields, named, List.map_nil, List.foldlM_nil] at h
    rw [Option.some.inj h]
  | cons f fields ih =>
    rw [setFields, named, List.map_cons, List.foldlM_cons] at h
    obtain ⟨first, hfirst, h⟩ := Option.bind_eq_some_iff.mp h
    obtain ⟨p, hp⟩ := Path.exists_ofText f.1
    have hplace : place (Path.start f.1 :: p) f.2 d = some first := hp ▸ hfirst
    rw [ih (fun g hg => hfields g (by simp [hg])) h]
    exact get?_place_of_ne hplace (hfields f (by simp))

/-- Fields whose names are apart can be set in a document with nothing in their way. Each of them is stored
afterwards, and nothing changes under names apart from theirs. -/
theorem setFields_named {fields : List (String × Value)}
    (hapart : fields.Pairwise fun f g => Path.Apart f.1 g.1) (haccepts : ∀ f ∈ fields, d.Accepts f.1) :
    ∃ e, setFields (named fields) d = some e ∧
      (∀ f ∈ fields, e.stored? f.1 = some f.2 ∧ e.Accepts f.1) ∧
      ∀ field, (∀ f ∈ fields, Path.Apart f.1 field) →
        e.stored? field = d.stored? field ∧ (d.Accepts field → e.Accepts field) := by
  induction fields generalizing d with
  | nil => exact ⟨d, rfl, by simp, fun _ _ => ⟨rfl, fun h => h⟩⟩
  | cons f fields ih =>
    obtain ⟨hf, hrest⟩ := List.pairwise_cons.mp hapart
    obtain ⟨first, hfirst⟩ : ∃ first, setField d (.text f.1, f.2) = some first :=
      place_of_isOpen f.2 (haccepts f (by simp))
    have hfree : ∀ g ∈ fields, first.Accepts g.1 := fun g hg =>
      accepts_setField hfirst (.inr (hf g hg)) (haccepts g (by simp [hg]))
    -- The fields that follow are apart from the first, so what it sets is kept by all of them.
    obtain ⟨e, he, hset, hkept⟩ := ih hrest hfree
    refine ⟨e, ?_, ?_, ?_⟩
    · rw [setFields, named, List.map_cons, List.foldlM_cons, hfirst]
      exact he
    · intro g hg
      rcases List.mem_cons.mp hg with rfl | hg
      · obtain ⟨hstored, hopen⟩ := hkept g.1 fun h hh => (hf h hh).symm
        rw [hstored]
        exact ⟨valueAt?_place hfirst,
          hopen (accepts_setField hfirst (.inl rfl) (haccepts g (by simp)))⟩
      · exact hset g hg
    · intro field hfield
      have hfapart := hfield f (by simp)
      obtain ⟨hstored, hopen⟩ := hkept field fun g hg => hfield g (by simp [hg])
      rw [hstored]
      exact ⟨valueAt?_place_of_apart hfirst hfapart.1 hfapart.2,
        fun hd => hopen (accepts_setField hfirst (.inr hfapart) hd)⟩

end Document

open Document

theorem Dictionary.insert_text_named (name : String) (w : Value) (es : List (String × Value)) :
    Dictionary.insert (.text name) w (named es) = named (Dictionary.insert name w es) := by
  induction es with
  | nil => rfl
  | cons e es ih =>
    simp only [named] at ih
    by_cases hname : e.1 = name <;> simp [named, Dictionary.insert, hname, ih]

theorem Dictionary.insertMany_named (d es : List (String × Value)) :
    Dictionary.insertMany (named d) (named es) = named (Dictionary.insertMany d es) := by
  induction es generalizing d with
  | nil => rfl
  | cons e es ih =>
    have hstep : Dictionary.insertMany (named d) (named (e :: es)) =
        Dictionary.insertMany (Dictionary.insert (.text e.1) e.2 (named d)) (named es) := rfl
    rw [hstep, Dictionary.insert_text_named, ih]
    rfl

end EntityStore
