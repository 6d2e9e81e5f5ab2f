import EntityStore.Proofs.Document.Setting

namespace EntityStore

open Document Expand

namespace Value

/-- A field with its value changed, if that is a document under a name. -/
def changeNested (change : String → Value → Value) : Value × Value → Value × Value
  | (.text name, v) => (.text name, if v.isWritableDocument then change name v else v)
  | f => f

/-- A document with the documents that it holds under names changed. -/
def mapDocuments (change : String → Value → Value) : Value → Value
  | .document kind fields => .document kind (fields.map (changeNested change))
  | v => v

/-- A document with its fields changed. -/
def mapFields (change : Document → Document) : Value → Value
  | .document kind fields => .document kind (change fields)
  | v => v

/-- Whether a document holds another one under a name. -/
def HoldsDocument (v : Value) (name : String) (w : Value) : Prop :=
  ∃ kind fields, v = .document kind fields ∧ (.text name, w) ∈ fields ∧ w.isWritableDocument = true

variable {f : String} {v w : Value} {d fields x : Document} {kind k : DocumentKind} {φ ψ : String → Value → Value}

theorem HoldsDocument.isWritableDocument (h : v.HoldsDocument f w) : w.isWritableDocument = true := by
  obtain ⟨_, _, _, _, hw⟩ := h
  exact hw

theorem changeNested_fst (φ : String → Value → Value) (f : Value × Value) : (changeNested φ f).1 = f.1 := by
  obtain ⟨key, v⟩ := f
  cases key <;> rfl

theorem isWritableDocument_document (hkind : kind ≠ .readOnly) : (Value.document kind d).isWritableDocument = true := by
  cases kind with
  | readOnly => exact absurd rfl hkind
  | plain | ordered => rfl

theorem exists_of_isWritableDocument (h : w.isWritableDocument = true) :
    ∃ k x, w = .document k x ∧ k ≠ .readOnly := by
  cases w with
  | document k x =>
    refine ⟨k, x, rfl, ?_⟩
    rintro rfl
    cases h
  | _ => cases h

theorem mapDocuments_congr (h : ∀ f w, v.HoldsDocument f w → φ f w = ψ f w) : v.mapDocuments φ = v.mapDocuments ψ := by
  cases v with
  | document kind fields =>
    rw [mapDocuments, mapDocuments, Value.document.injEq]
    refine ⟨rfl, List.map_congr_left fun f hf => ?_⟩
    obtain ⟨key, w⟩ := f
    cases key with
    | text name =>
      rw [changeNested, changeNested]
      split
      · next hw => rw [h name w ⟨kind, fields, rfl, hf, hw⟩]
      · rfl
    | _ => rfl
  | _ => rfl

theorem mapDocuments_eq_self (h : ∀ f w, v.HoldsDocument f w → φ f w = w) : v.mapDocuments φ = v := by
  have hid : v.mapDocuments (fun _ w => w) = v := by
    have hnested : changeNested (fun _ w => w) = fun field => field := by
      funext field
      obtain ⟨key, w⟩ := field
      cases key <;> simp [changeNested]
    cases v with
    | document kind fields => rw [mapDocuments, hnested, List.map_id']
    | _ => rfl
  rw [mapDocuments_congr h, hid]

theorem mapDocuments_mapDocuments (h : ∀ f w, v.HoldsDocument f w → (φ f w).isWritableDocument = true) :
    (v.mapDocuments φ).mapDocuments ψ = v.mapDocuments fun f w => ψ f (φ f w) := by
  cases v with
  | document kind fields =>
    rw [mapDocuments, mapDocuments, mapDocuments, Value.document.injEq, List.map_map]
    refine ⟨rfl, List.map_congr_left fun f hf => ?_⟩
    obtain ⟨key, w⟩ := f
    cases key with
    | text name =>
      rw [Function.comp_apply, changeNested, changeNested, changeNested]
      cases hw : w.isWritableDocument with
      | true => simp [h name w ⟨kind, fields, rfl, hf, hw⟩]
      | false => simp [hw]
    | _ => rfl
  | _ => rfl

theorem get?_map_changeNested (φ : String → Value → Value) (f : String) (fields : Document) :
    Dictionary.get? (.text f) (fields.map (changeNested φ)) =
      (Dictionary.get? (.text f) fields).map fun w => if w.isWritableDocument then φ f w else w := by
  induction fields with
  | nil => rfl
  | cons field fields ih =>
    obtain ⟨key, w⟩ := field
    rw [List.map_cons, Dictionary.get?, Dictionary.get?, changeNested_fst, ih]
    split
    · next hkey =>
      obtain rfl := (Value.beq_text key f).mp hkey
      rfl
    · rfl

theorem writable?_mapDocuments (φ : String → Value → Value) (v : Value) :
    writable? (v.mapDocuments φ) = (writable? v).map fun d => (d.1, d.2.map (changeNested φ)) := by
  cases v with
  | document kind fields => cases kind <;> rfl
  | _ => rfl

theorem reached?_mapDocuments (φ : String → Value → Value) (v : Value) (f : String) :
    (v.mapDocuments φ).reached? [.text f] =
      (v.reached? [.text f]).map fun w => if w.isWritableDocument then φ f w else w := by
  rw [Value.reached?, Value.reached?, writable?_mapDocuments]
  cases writable? v with
  | none => rfl
  | some d =>
    have hheld : (Value.reached? [] : Value → Option Value) = some := rfl
    simp only [Option.map_some, Option.bind_some, hheld, Option.bind_fun_some]
    exact get?_map_changeNested φ f d.2

theorem hasDistinctKeys_mapDocuments (h : v.HasDistinctKeys) : (v.mapDocuments φ).HasDistinctKeys := by
  intro d hd
  rw [writable?_mapDocuments] at hd
  obtain ⟨given, hgiven, rfl⟩ := Option.map_eq_some_iff.mp hd
  rw [List.pairwise_map]
  simpa [changeNested_fst] using h given hgiven

/-- A document in one that can be written to is what that one holds under its name. -/
theorem reached?_of_holdsDocument (hv : v.HasDistinctKeys) (hwritable : (writable? v).isSome = true)
    (h : v.HoldsDocument f w) : v.reached? [.text f] = some w := by
  obtain ⟨kind, fields, rfl, hmem, -⟩ := h
  obtain ⟨given, hgiven⟩ := Option.isSome_iff_exists.mp hwritable
  obtain ⟨hv', hkind⟩ := exists_of_writable? hgiven
  obtain ⟨rfl, rfl⟩ := Value.document.inj hv'
  rw [reached?_document hkind, Dictionary.get?_of_mem (by simp) (hv _ hgiven) hmem]
  rfl

end Value

namespace Document

open Value

variable {s f : String} {w : Value} {fields x : Document} {k : DocumentKind} {e : String × Value}
  {es : List (String × Value)}

/-- A document in a field is the one that is changed under its name. -/
theorem insert_eq_map_changeNested (hfields : fields.Pairwise fun p q => (p.1 == q.1) = false) (hk : k ≠ .readOnly)
    (h : Dictionary.get? (.text f) fields = some (.document k x)) (change : Document → Document) :
    Dictionary.insert (.text f) (.document k (change x)) fields =
      fields.map (changeNested fun f' w => if f' = f then w.mapFields change else w) := by
  rw [Dictionary.insert_eq_map hfields h (Value.isKey_text f).unique]
  refine List.map_congr_left fun field hfield => ?_
  obtain ⟨key, w⟩ := field
  by_cases hkey : (key == .text f) = true
  · obtain rfl := (Value.beq_text key f).mp hkey
    have hw : Dictionary.get? (.text f) fields = some w := Dictionary.get?_of_mem hkey hfields hfield
    obtain rfl := Option.some.inj (h.symm.trans hw)
    simp [changeNested, isWritableDocument_document hk, Value.mapFields]
  · rw [if_neg hkey]
    cases key with
    | text name =>
      have hname : name ≠ f := by
        rintro rfl
        exact hkey (by simp)
      simp [changeNested, hname]
    | _ => rfl

/-- Changing a document under two names changes it alone. -/
theorem modifyAt_named (hnames : es.Pairwise fun e f => e.1 ≠ f.1) (he : e ∈ es) (hdistinct : e.2.HasDistinctKeys)
    (hk : k ≠ .readOnly) (hx : e.2.reached? [.text f] = some (.document k x)) (change : Document → Document) :
    modifyAt [.text e.1, .text f] change (named es) = named (es.map fun e' =>
      (e'.1, e'.2.mapDocuments fun f' w => if (e'.1, f') = (e.1, f) then w.mapFields change else w)) := by
  obtain ⟨kind, fields, hfields, hkind⟩ := exists_document_of_reached? hk hx
  have hheld : Dictionary.get? (.text f) fields = some (.document k x) := by
    rw [hfields, reached?_document hkind] at hx
    obtain ⟨w, hw, hx⟩ := Option.bind_eq_some_iff.mp hx
    rw [hw, ← hx]
    rfl
  have hkeys : fields.Pairwise fun p q => (p.1 == q.1) = false :=
    hdistinct (kind, fields) (by rw [hfields, writable?_document hkind]; rfl)
  have hmodified : modifyAt [.text e.1, .text f] change (named es) = Dictionary.insert (.text e.1)
      (.document kind (Dictionary.insert (.text f) (.document k (change x)) fields)) (named es) := by
    rw [modifyAt, get?_named hnames he, hfields]
    simp only
    rw [modifyAt, hheld]
    rfl
  have hbeq : es.Pairwise fun e f => (e.1 == f.1) = false := hnames.imp fun hne => beq_eq_false_iff_ne.mpr hne
  have hthere : Dictionary.get? e.1 es = some e.2 := Dictionary.get?_of_mem (beq_self_eq_true _) hbeq he
  have hunique {a b : String} (ha : (a == e.1) = true) (hb : (b == e.1) = true) : (a == b) = true := by
    rw [eq_of_beq ha, eq_of_beq hb]
    exact beq_self_eq_true _
  rw [hmodified, insert_eq_map_changeNested hkeys hk hheld, Dictionary.insert_text_named,
    Dictionary.insert_eq_map hbeq hthere hunique]
  congr 1
  refine List.map_congr_left fun e' he' => ?_
  by_cases hname : e'.1 = e.1
  · have hsame : e'.2 = e.2 := by
      have hthere' : Dictionary.get? e'.1 es = some e'.2 := Dictionary.get?_of_mem (beq_self_eq_true _) hbeq he'
      rw [hname] at hthere'
      exact Option.some.inj (hthere'.symm.trans hthere)
    rw [hname, hsame, hfields]
    simp [Value.mapDocuments]
  · have hself : e'.2.mapDocuments (fun f' w => if (e'.1, f') = (e.1, f) then w.mapFields change else w) = e'.2 := by
      refine mapDocuments_eq_self fun f' w _ => ?_
      rw [if_neg fun h => hname (Prod.mk.inj h).1]
    rw [hself, if_neg (by simpa using hname)]

theorem reached?_named (es : List (String × Value)) (s f : String) :
    (Value.plain (named es)).reached? [.text s, .text f] =
      (Dictionary.get? (.text s) (named es)).bind (Value.reached? [.text f]) :=
  reached?_document (by decide) _ _ _

theorem reached?_named_append (h : (Value.plain (named es)).reached? [.text s, .text f] = some w)
    (others : List (String × Value)) :
    (Value.plain (named (es ++ others))).reached? [.text s, .text f] = some w := by
  rw [reached?_named] at h ⊢
  obtain ⟨u, hu, hw⟩ := Option.bind_eq_some_iff.mp h
  have happend : Dictionary.get? (.text s) (named (es ++ others)) = some u := by
    rw [named, List.map_append, Dictionary.get?_append, hu, Option.some_or]
  rw [happend, Option.bind_some, hw]

theorem get?_named_map (change : String × Value → Value) (s : String) (es : List (String × Value)) :
    Dictionary.get? (.text s) (named (es.map fun e => (e.1, change e))) =
      (Dictionary.get? (.text s) (named es)).map fun v => change (s, v) := by
  induction es with
  | nil => rfl
  | cons e es ih =>
    simp only [named] at ih
    simp only [named, List.map_cons, Dictionary.get?, ih]
    split
    · next hname =>
      obtain rfl := Value.text.inj ((Value.beq_text _ s).mp hname)
      rfl
    · rfl

end Document

end EntityStore
