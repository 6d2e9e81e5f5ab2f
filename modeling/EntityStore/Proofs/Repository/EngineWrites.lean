import EntityStore.Proofs.Repository.Keeping

namespace EntityStore

namespace Path

/-- A name that neither is that of the native field nor leads into it is apart from it. -/
theorem apart_native {s : String} (hne : s ≠ Mapping.nativeField) (hbelow : ¬"_id.".toList <+: s.toList) :
    Apart Mapping.nativeField s := by
  have hnative : ofText Mapping.nativeField = ["_id"] := by decide
  constructor
  · rintro ⟨rest, hrest⟩
    rw [hnative] at hrest
    have hs := text_ofText s
    rw [← hrest] at hs
    cases rest with
    | nil => exact hne hs.symm
    | cons t rest =>
      apply hbelow
      refine ⟨joinDots ((t :: rest).map String.toList), ?_⟩
      rw [← hs]
      simp [text, joinDots]
  · intro hbegins
    rw [hnative] at hbegins
    rcases List.prefix_cons_iff.mp hbegins with hnil | ⟨rest, hrest, htail⟩
    · exact ofText_ne_nil s hnil
    · obtain rfl := List.prefix_nil.mp htail
      exact hne (ofText_injective (hrest.trans hnative.symm))

end Path

namespace Document

variable {s : String} {id : Value} {d : Document}

theorem get?_native (h : Path.Apart Mapping.nativeField s) {t : String} {p : Path}
    (hs : Path.ofText s = t :: p) :
    Dictionary.get? (.text t) ((.text Mapping.nativeField, id) :: d) = Dictionary.get? (.text t) d := by
  have hne : Mapping.nativeField ≠ t := by
    rintro rfl
    apply h.1
    rw [hs, show Path.ofText Mapping.nativeField = [Mapping.nativeField] by decide]
    exact List.prefix_append _ p
  simp [Dictionary.get?, hne]

/-- A native identifier in front changes nothing under names apart from the native field. -/
theorem stored?_native (h : Path.Apart Mapping.nativeField s) :
    stored? s ((.text Mapping.nativeField, id) :: d) = stored? s d := by
  rw [stored?, stored?]
  cases hs : Path.ofText s with
  | nil => exact absurd hs (Path.ofText_ne_nil s)
  | cons t p => exact valueAt?_congr (get?_native h hs)

theorem accepts_native (h : Path.Apart Mapping.nativeField s) :
    Accepts ((.text Mapping.nativeField, id) :: d) s ↔ Accepts d s := by
  rw [Accepts, Accepts]
  cases hs : Path.ofText s with
  | nil => exact absurd hs (Path.ofText_ne_nil s)
  | cons t p => exact isOpen_congr (get?_native h hs)

end Document

/-- A mapping of an identity that is given with the entities, none of whose fields is in the native one. -/
structure Mapping.KeepsNative (m : Mapping) (field : String) : Prop extends m.IsConsistent field where
  given : m.generatesIds = false
  outside : ∀ f ∈ m.fields, Path.Apart nativeField f.2

/-- An entity with its identity, and the flat document that holds the same. -/
structure KeyedEntity (m : Mapping) where
  value : Value
  key : IdentityKey
  flat : Document
  tells : value.id = .ok key.value
  flattens : flatten value = .ok flat
  holds : (flat.valueOf m.identity == key.value) = true

namespace KeyedEntity

variable {m : Mapping}

def store (s : EntityMap) (e : KeyedEntity m) : EntityMap := Function.update s e.key (some e.flat)

def identity (e : KeyedEntity m) : Value := e.flat.valueOf m.identity

/-- The update that gives a document the fields of an entity. -/
def update (field : String) (e : KeyedEntity m) : Document :=
  settingFields (Document.named (m.changes field e.flat))

def upsert (field : String) (e : KeyedEntity m) : BulkWrite :=
  .upsert [(.text field, e.identity)] (e.update field)

end KeyedEntity

namespace Collection

open Mapping

variable {m : Mapping} {field : String} {k : IdentityKey} {flat d : Document} {s : EntityMap}
  {c : Collection} (habits : EngineHabits) (h : m.KeepsNative field) (hs : m.Keeps field c.documents s)
include h

theorem native_ne : ∀ f ∈ m.fields, f.2 ≠ nativeField := by
  intro f hf heq
  have hapart := h.outside f hf
  rw [heq] at hapart
  exact hapart.1 (List.prefix_refl _)

theorem stores_native (hd : m.Stores field k flat d) (id : Value) :
    m.Stores field k flat ((.text nativeField, id) :: d) := by
  refine ⟨⟨?_, ?_⟩, ?_⟩
  · rw [Document.stored?_native (h.outside _ h.mem_fields)]
    exact hd.identity
  · intro f hf
    exact (Document.accepts_native (h.outside f hf)).mpr (hd.accepts f hf)
  · intro f hf hne
    rw [Document.stored?_native (h.outside f hf)]
    exact hd.others f hf hne

include hs

theorem keeps_insert (hnone : s k = none) (hd : m.Stores field k flat d) :
    m.Keeps field (c.insert habits d).2.documents (Function.update s k (some flat)) := by
  cases hid : Dictionary.get? (.text nativeField) d with
  | some id =>
    rw [insert, hid]
    exact hs.append hnone hd
  | none =>
    rw [insert, hid]
    exact hs.append hnone (stores_native h hd _)

variable {v : Value} (hv : (v == k.value) = true)
include hv

omit h in
theorem updateFirst_absent (hnone : s k = none) (update : Document) :
    c.updateFirst (.single field v) update = none := by
  rw [updateFirst, isSelected_eq_hasIdentity hv, hs.find?_none hnone]
  rfl

theorem updateFirst_present {old : Document} (hold : s k = some old) (flat : Document) :
    ∃ e after, c.updateFirst (.single field v) (settingFields (Document.named (m.changes field flat))) =
      some (.ok (e, after)) ∧ m.Keeps field after.documents (Function.update s k (some flat)) := by
  obtain ⟨d, hd, hstores⟩ := hs.find?_some hold
  obtain ⟨e, he, hnew⟩ := h.stores_changed (native_ne h) hstores.toIdentifies flat
  rw [updateFirst, isSelected_eq_hasIdentity hv, hd, Option.map_some, Document.updated?_settingFields,
    he]
  exact ⟨e, _, rfl, hs.replaceFirst hold hnew⟩

omit hs in
theorem stores_upserted (flat : Document) :
    ∃ d, upserted? [(.text field, v)] (settingFields (Document.named (m.changes field flat))) = some d ∧
      m.Stores field k flat d := by
  have hone : [(field, v)].Pairwise fun f g => Path.Apart f.1 g.1 := List.pairwise_singleton _ _
  obtain ⟨d, hd, hset, hkept⟩ := Document.setFields_named hone fun f _ => Document.accepts_nil f.1
  have hfield := hset (field, v) (by simp)
  have hidentifies : m.Identifies field k d := by
    refine ⟨⟨v, hfield.1, hv⟩, fun f hf => ?_⟩
    by_cases hne : f.2 = field
    · rw [hne]
      exact hfield.2
    · have hapart := h.apart _ h.mem_fields f hf (Ne.symm hne)
      exact (hkept f.2 (by simpa using hapart)).2 (Document.accepts_nil f.2)
  obtain ⟨e, he, hstores⟩ := h.stores_changed (native_ne h) hidentifies flat
  refine ⟨e, ?_, hstores⟩
  rw [upserted?, Document.equalities_atom field (IdentityKey.isAtom_of_beq hv), hd]
  exact (Document.updated?_settingFields _ d).trans he

omit hv in
theorem write_upsert (e : KeyedEntity m) : ∃ t after, c.write habits (e.upsert field) = .ok (t, after) ∧
    m.Keeps field after.documents (e.store s) ∧ 0 < t.matched + t.upserted := by
  cases hold : s e.key with
  | some old =>
    obtain ⟨d, after, hafter, hkeeps⟩ := updateFirst_present h hs e.holds hold e.flat
    refine ⟨⟨0, 1, 0⟩, after, ?_, hkeeps, by decide⟩
    rw [KeyedEntity.upsert, write, KeyedEntity.identity, KeyedEntity.update, hafter]
  | none =>
    obtain ⟨d, hd, hstores⟩ := stores_upserted h e.holds e.flat
    refine ⟨⟨0, 0, 1⟩, (c.insert habits d).2, ?_, keeps_insert habits h hs hold hstores, by decide⟩
    rw [KeyedEntity.upsert, write, KeyedEntity.identity, updateFirst_absent hs e.holds hold, KeyedEntity.update, hd]

omit hv in
/-- Writing entities one after the other stores each of them, the last of those with one identity. -/
theorem writeAll_upserts (es : List (KeyedEntity m)) :
    ∃ t after, c.writeAll habits false (es.map fun e => e.upsert field) = (.ok t, after) ∧
      m.Keeps field after.documents (es.foldl KeyedEntity.store s) ∧
      (es ≠ [] → 0 < t.matched + t.upserted) := by
  induction es generalizing c s with
  | nil => exact ⟨⟨0, 0, 0⟩, c, rfl, hs, fun hne => absurd rfl hne⟩
  | cons e es ih =>
    obtain ⟨first, between, hfirst, hbetween, hpos⟩ := write_upsert habits h hs e
    obtain ⟨rest, after, hrest, hkeeps, _⟩ := ih hbetween
    refine ⟨first.add rest, after, ?_, hkeeps, fun _ => ?_⟩
    · rw [List.map_cons, writeAll, hfirst]
      simp only
      rw [hrest]
      rfl
    · simp only [Tally.add]
      omega

end Collection

end EntityStore
