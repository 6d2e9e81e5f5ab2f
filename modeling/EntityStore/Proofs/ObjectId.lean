import EntityStore.ObjectId

namespace EntityStore

namespace Hex

theorem length_encode (bs : List UInt8) : (encode bs).length = 2 * bs.length := by
  induction bs with
  | nil => rfl
  | cons b bs ih =>
    rw [encode, List.flatMap_cons, List.length_append, ← encode, ih, List.length_cons]
    simp [digits]
    omega

theorem isBlank_of_value? {c : Char} {n : Nat} (h : value? c = some n) : isBlank c = false := by
  have hdigit : 48 ≤ c.toNat := by
    rw [value?] at h
    split at h
    · next hrange => exact Char.le_def.mp hrange.1
    · split at h
      · next hrange => exact Nat.le_trans (by decide) (Char.le_def.mp hrange.1)
      · split at h
        · next hrange => exact Nat.le_trans (by decide) (Char.le_def.mp hrange.1)
        · exact nomatch h
  have hspace : c ≠ ' ' := by
    rintro rfl
    exact absurd hdigit (by decide)
  have hcontrol : ¬c.toNat ≤ 13 := by omega
  simp [isBlank, hspace, hcontrol]

/-- All that is read is blank, except for the two digits of each byte. -/
theorem length_of_decode {cs : List Char} {bs : List UInt8} (h : decode cs = some bs) :
    cs.length = 2 * bs.length + cs.countP isBlank := by
  fun_induction decode cs generalizing bs with
  | case1 =>
    obtain rfl := Option.some.inj h
    rfl
  | case2 c rest hblank ih =>
    rw [List.length_cons, List.countP_cons_of_pos hblank, ih h, Nat.add_assoc]
  | case3 c hdigit => exact nomatch h
  | case4 c hdigit d rest ih =>
    obtain ⟨high, hhigh, h⟩ := Option.bind_eq_some_iff.mp h
    obtain ⟨low, hlow, h⟩ := Option.bind_eq_some_iff.mp h
    obtain ⟨bytes, hbytes, h⟩ := Option.bind_eq_some_iff.mp h
    obtain rfl := Option.some.inj h
    have hc := isBlank_of_value? hhigh
    have hd := isBlank_of_value? hlow
    have hrest := ih hbytes
    simp [hc, hd]
    omega

end Hex

namespace ObjectId

theorem length_display (o : ObjectId) : o.display.toList.length = 2 * o.bytes.length := by
  rw [display, String.toList_ofList, Hex.length_encode]

/-- The digits of twelve bytes denote the native identifier that they are of. -/
theorem ofText?_display {o : ObjectId} (h : o.bytes.length = 12) : ofText? o.display = some o := by
  have hlength : o.display.toList.length = 24 := by rw [length_display, h]
  rw [ofText?, if_pos hlength, display, String.toList_ofList, Hex.decode_encode]
  rfl

theorem ofText?_display_of_ne {o : ObjectId} (h : o.bytes.length ≠ 12) : ofText? o.display = none := by
  have hlength : o.display.toList.length ≠ 24 := by
    rw [length_display]
    omega
  rw [ofText?, if_neg hlength]

/-- A text that denotes an identifier has two characters for each byte of it, and is blank otherwise. -/
theorem length_of_ofText? {s : String} {o : ObjectId} (h : ofText? s = some o) :
    2 * o.bytes.length + s.toList.countP Hex.isBlank = 24 := by
  rw [ofText?] at h
  split at h
  · next hlength =>
    obtain ⟨bytes, hdecode, rfl⟩ := Option.map_eq_some_iff.mp h
    rw [← hlength, Hex.length_of_decode hdecode]
  · exact nomatch h

end ObjectId

end EntityStore
