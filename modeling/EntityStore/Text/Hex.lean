namespace EntityStore.Hex

/-- The digit of a value below sixteen, in lower case. -/
def digit (n : Nat) : Char := if n < 10 then Char.ofNat (48 + n) else Char.ofNat (87 + n)

/-- The value of a digit of either case. -/
def value? (c : Char) : Option Nat :=
  if '0' ≤ c ∧ c ≤ '9' then some (c.toNat - 48)
  else if 'a' ≤ c ∧ c ≤ 'f' then some (c.toNat - 87)
  else if 'A' ≤ c ∧ c ≤ 'F' then some (c.toNat - 55)
  else none

/-- The last `width` digits of a number. -/
def digits : Nat → Nat → List Char
  | 0, _ => []
  | width + 1, n => digits width (n / 16) ++ [digit (n % 16)]

def encode (bytes : List UInt8) : List Char :=
  bytes.flatMap fun b => digits 2 b.toNat

/-- The blanks that may stand between two pairs. -/
def isBlank (c : Char) : Bool :=
  c == ' ' || (decide (9 ≤ c.toNat) && decide (c.toNat ≤ 13))

/-- Reads pairs of digits; blanks may stand before, between and after the pairs. -/
def decode : List Char → Option (List UInt8)
  | [] => some []
  | c :: rest =>
    if isBlank c then decode rest
    else match rest with
      | [] => none
      | d :: rest => do
        let high ← value? c
        let low ← value? d
        let bytes ← decode rest
        pure (UInt8.ofNat (16 * high + low) :: bytes)

/-- The digits of values below sixteen are read back, and none of them is blank. -/
theorem value?_digit {n : Nat} (h : n < 16) : value? (digit n) = some n ∧ isBlank (digit n) = false := by
  have all : ∀ k : Fin 16, value? (digit k.val) = some k.val ∧ isBlank (digit k.val) = false := by
    decide
  exact all ⟨n, h⟩

theorem decode_cons (b : UInt8) (cs : List Char) :
    decode (digits 2 b.toNat ++ cs) = (decode cs).map (b :: ·) := by
  have high := value?_digit (Nat.mod_lt (b.toNat / 16) (by decide : 0 < 16))
  have low := value?_digit (Nat.mod_lt b.toNat (by decide : 0 < 16))
  have join : 16 * (b.toNat / 16 % 16) + b.toNat % 16 = b.toNat := by
    have := b.toNat_lt
    omega
  simp only [digits, List.nil_append, List.cons_append]
  rw [decode]
  simp only [high.2, high.1, low.1, Bool.false_eq_true, if_false]
  cases decode cs with
  | none => rfl
  | some bytes =>
    change some (UInt8.ofNat (16 * (b.toNat / 16 % 16) + b.toNat % 16) :: bytes) = some (b :: bytes)
    rw [join, UInt8.ofNat_toNat]

theorem decode_encode (bytes : List UInt8) : decode (encode bytes) = some bytes := by
  induction bytes with
  | nil => rfl
  | cons b rest ih =>
    have : encode (b :: rest) = digits 2 b.toNat ++ encode rest := by simp [encode]
    rw [this, decode_cons, ih]
    rfl

end EntityStore.Hex
