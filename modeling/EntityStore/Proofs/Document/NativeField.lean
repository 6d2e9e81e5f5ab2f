import EntityStore.Mapping.Basic
import EntityStore.Proofs.Document.Placing

namespace EntityStore

open Mapping (nativeField)

/-- The names that are not apart from the native field are those that start in it. -/
theorem Path.apart_native_iff {s : String} : Apart nativeField s ↔ start s ≠ nativeField := by
  have hnative : ofText nativeField = [nativeField] := by decide
  obtain ⟨p, hp⟩ := exists_ofText s
  rw [Apart, hnative, hp]
  constructor
  · rintro ⟨hnot, _⟩ hstart
    apply hnot
    rw [hstart]
    exact List.prefix_append [nativeField] p
  · intro hstart
    constructor
    · intro hbegins
      exact hstart (List.cons_prefix_cons.mp hbegins).1.symm
    · intro hbegins
      exact hstart (List.cons_prefix_cons.mp hbegins).1

namespace Document

variable {d e : Document} {v : Value} {p : Path} {s : String}

theorem stored?_nativeField (d : Document) : d.stored? nativeField = Dictionary.get? (.text nativeField) d := by
  have hnative : Path.ofText nativeField = [nativeField] := by decide
  rw [stored?, hnative, valueAt?_one]

/-- What a document holds besides the native field. -/
def withoutNative (d : Document) : Document := d.filter fun f => !(f.1 == .text nativeField)

theorem get?_withoutNative (hs : s ≠ nativeField) (d : Document) :
    Dictionary.get? (.text s) d.withoutNative = Dictionary.get? (.text s) d := by
  induction d with
  | nil => rfl
  | cons f d ih =>
    rw [withoutNative] at ih
    rw [withoutNative, List.filter_cons]
    by_cases hf : (f.1 == .text nativeField) = true
    · have hkey : f.1 = .text nativeField := (Value.beq_text f.1 nativeField).mp hf
      simp [hkey, ih, Dictionary.get?, hs.symm]
    · simp [hf, ih, Dictionary.get?]

theorem withoutNative_insert (hs : s ≠ nativeField) (v : Value) (d : Document) :
    withoutNative (Dictionary.insert (.text s) v d) = Dictionary.insert (.text s) v d.withoutNative := by
  induction d with
  | nil => simp [withoutNative, Dictionary.insert, hs]
  | cons f d ih =>
    rw [withoutNative] at ih
    rw [withoutNative, withoutNative, Dictionary.insert]
    by_cases hf : (f.1 == .text s) = true
    · have hkey : f.1 = .text s := (Value.beq_text f.1 s).mp hf
      simp [hkey, hs, Dictionary.insert]
    · rw [if_neg hf, List.filter_cons, List.filter_cons, ih]
      split
      · rw [withoutNative, Dictionary.insert, if_neg hf]
      · rfl

theorem withoutNative_insert_native (v : Value) (d : Document) :
    withoutNative (Dictionary.insert (.text nativeField) v d) = d.withoutNative := by
  induction d with
  | nil => simp [withoutNative, Dictionary.insert]
  | cons f d ih =>
    rw [withoutNative] at ih
    rw [withoutNative, withoutNative, Dictionary.insert]
    by_cases hf : (f.1 == .text nativeField) = true
    · simp [hf]
    · rw [if_neg hf, List.filter_cons, List.filter_cons, ih]
      rfl

theorem place_withoutNative (hs : s ≠ nativeField) (h : place (s :: p) v d = some e) :
    place (s :: p) v d.withoutNative = some e.withoutNative := by
  cases p with
  | nil =>
    rw [place, Option.some.injEq] at h
    rw [← h, place, withoutNative_insert hs]
  | cons t p =>
    obtain ⟨kind, fields, changed, hbranch, hplace, rfl⟩ := place_cons.mp h
    rw [← get?_withoutNative hs] at hbranch
    exact place_cons.mpr ⟨kind, fields, changed, hbranch, hplace, (withoutNative_insert hs _ _).symm⟩

/-- Fields that are set change what stands besides the native field as they would without it. -/
theorem setFields_withoutNative {fields : List (String × Value)}
    (hfields : ∀ f ∈ fields, Path.start f.1 = nativeField → f.1 = nativeField)
    (h : setFields (named fields) d = some e) :
    setFields (named (fields.filter fun f => f.1 != nativeField)) d.withoutNative = some e.withoutNative := by
  induction fields generalizing d with
  | nil =>
    rw [setFields, named, List.map_nil, List.foldlM_nil] at h
    rw [← Option.some.inj h]
    rfl
  | cons f fields ih =>
    rw [setFields, named, List.map_cons, List.foldlM_cons] at h
    obtain ⟨first, hfirst, h⟩ := Option.bind_eq_some_iff.mp h
    have hrest := ih (fun g hg => hfields g (by simp [hg])) h
    by_cases hf : f.1 = nativeField
    · have hnative : Path.ofText nativeField = [nativeField] := by decide
      have hplace : place [nativeField] f.2 d = some first := by
        rw [← hnative, ← hf]
        exact hfirst
      rw [place, Option.some.injEq] at hplace
      rw [← hplace, withoutNative_insert_native] at hrest
      rw [List.filter_cons, if_neg (by simpa using hf)]
      exact hrest
    · obtain ⟨p, hp⟩ := Path.exists_ofText f.1
      have hstart : Path.start f.1 ≠ nativeField := fun hstart => hf (hfields f (by simp) hstart)
      have hplace : place (Path.start f.1 :: p) f.2 d = some first := hp ▸ hfirst
      have hset : setField d.withoutNative (.text f.1, f.2) = some first.withoutNative := by
        change place (Path.ofText f.1) f.2 d.withoutNative = _
        rw [hp]
        exact place_withoutNative hstart hplace
      rw [List.filter_cons, if_pos (by simpa using hf), setFields, named, List.map_cons, List.foldlM_cons, hset]
      exact hrest

end Document

end EntityStore
