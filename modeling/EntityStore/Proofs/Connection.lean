import EntityStore.Connection
import EntityStore.Proofs.Number.IntegerText
import EntityStore.Proofs.Outcome

namespace EntityStore.Connection

open IntegerText

variable {uri : String} {options : Dictionary String Value}

/-- What the environment says of the timeout. -/
def timeoutText (environment : Dictionary String String) : String :=
  setting environment timeoutVariable defaultTimeout

/-- A connection is told of before it is made, and so its address and its timeout have to be shown. -/
def told (c : Connection) : Reported Connection := do
  let shownAddress ← Reported.ofExcept c.address.display
  let shownTimeout ← Reported.ofExcept c.timeout.display
  Reported.note .info
    s!"Creating MongoDB client for {shownAddress} (server selection timeout: {shownTimeout} ms)"
  pure c

/-- A connection of what is given alone. -/
def explicit (c : Connection) : Reported Connection := do
  Reported.ofExcept (checkOptions c.options)
  c.told

theorem outcome_explicit (c : Connection) : c.explicit.outcome =
    checkOptions c.options >>= fun _ => c.address.display >>= fun _ => c.timeout.display >>= fun _ => .ok c := by
  simp only [explicit, told, Reported.outcome_bind, Reported.outcome_ofExcept, Reported.outcome_note,
    Reported.outcome_pure, Outcome.ok_bind]

theorem withDefault_given {name : String} (h : Dictionary.contains name options = true) (v : Value) :
    withDefault name v options = options := if_pos h

/-- Options that are given are not asked of the environment, but its timeout is read before they are used. -/
theorem ofSettings_given (huri : uri ≠ "") (htimeout : Dictionary.contains timeoutOption options = true)
    (environment : Dictionary String String) :
    ofSettings (.text uri) environment options =
      Reported.ofExcept (checkOptions options) >>= fun _ =>
        Reported.ofExcept (read (timeoutText environment)) >>= fun _ => told ⟨.text uri, options⟩ := by
  have htext : (Value.text uri).isTruthy = true := bne_iff_ne.mpr huri
  simp only [ofSettings, htext, if_true, withDefault_given htimeout]
  rfl

theorem isNumeral_defaultTimeout : IsNumeral defaultTimeout.toList :=
  (exists_read_iff defaultTimeout).mp ⟨5000, by decide +kernel⟩

/-- A connection with an address and a timeout of its own is made of these and the other options alone, in any
environment whose timeout is the numeral of an integer. In any other it is refused for what that environment says.
An address among the options is refused in all of them, and so is a timeout that cannot be shown. -/
theorem ofSettings_explicit (huri : uri ≠ "") (htimeout : Dictionary.contains timeoutOption options = true) :
    ((explicit ⟨.text uri, options⟩).outcome =
      checkOptions options >>= fun _ => (timeout ⟨.text uri, options⟩).display >>= fun _ => .ok ⟨.text uri, options⟩) ∧
    ∀ environment,
      (IsNumeral (timeoutText environment).toList →
        ofSettings (.text uri) environment options = explicit ⟨.text uri, options⟩) ∧
      (¬IsNumeral (timeoutText environment).toList → ∃ e, read (timeoutText environment) = .error e ∧
        ofSettings (.text uri) environment options = ⟨[], checkOptions options >>= fun _ => .error e⟩) := by
  refine ⟨outcome_explicit _, fun environment => ⟨fun hnumeral => ?_, fun hnumeral => ?_⟩⟩
  · obtain ⟨n, hn⟩ := (exists_read_iff _).mpr hnumeral
    rw [ofSettings_given huri htimeout, hn, explicit]
    rfl
  · cases hread : read (timeoutText environment) with
    | ok n => exact absurd ((exists_read_iff _).mp ⟨n, hread⟩) hnumeral
    | error e =>
      refine ⟨e, rfl, ?_⟩
      rw [ofSettings_given huri htimeout, hread]
      cases checkOptions options <;> rfl

/-- Ten milliseconds, given twice: an environment without a timeout leaves them alone, and one whose timeout is no
numeral does not. -/
theorem ofSettings_explicit_soon :
    "mongodb://explicit:27017" ≠ "" ∧ Dictionary.contains timeoutOption [(timeoutOption, Value.int 10)] = true ∧
      (ofSettings (.text "mongodb://explicit:27017") [] [(timeoutOption, .int 10)]).outcome =
        .ok ⟨.text "mongodb://explicit:27017", [(timeoutOption, .int 10)]⟩ ∧
      ofSettings (.text "mongodb://explicit:27017") [(timeoutVariable, "soon")] [(timeoutOption, .int 10)] =
        ⟨[], .error (.notInteger "'soon'")⟩ := by
  have huri : "mongodb://explicit:27017" ≠ "" := by decide
  have htimeout : Dictionary.contains timeoutOption [(timeoutOption, Value.int 10)] = true := by decide
  have hsoon : read (timeoutText [(timeoutVariable, "soon")]) = .error (.notInteger "'soon'") := by decide +kernel
  have hnumeral : ¬IsNumeral (timeoutText [(timeoutVariable, "soon")]).toList := by
    intro h
    obtain ⟨n, hn⟩ := (exists_read_iff _).mpr h
    exact Outcome.ok_ne_error hn hsoon
  obtain ⟨hmade, hasked⟩ := ofSettings_explicit huri htimeout
  refine ⟨huri, htimeout, ?_, ?_⟩
  · rw [(hasked []).1 isNumeral_defaultTimeout, hmade]
    rfl
  · obtain ⟨e, he, hrefused⟩ := (hasked [(timeoutVariable, "soon")]).2 hnumeral
    obtain rfl := Except.error.inj (hsoon.symm.trans he)
    exact hrefused

end EntityStore.Connection
