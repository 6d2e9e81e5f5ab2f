import EntityStore.Engine.Scripted
import Mathlib.Data.List.Nodup
import Mathlib.Data.Nat.Bitwise

namespace EntityStore

/-- The next identifiers that an engine makes. -/
def Engine.identifiers {σ : Type} (engine : Engine σ) : Nat → σ → List ObjectId
  | 0, _ => []
  | n + 1, state => (engine.freshId state).1 :: engine.identifiers n (engine.freshId state).2

namespace ObjectId

/-- How many identifiers there are. -/
def count : Nat := 2 ^ 96

theorem ofNumber_injective {m n : Nat} (hm : m < count) (hn : n < count) (h : ofNumber m = ofNumber n) : m = n := by
  have hbytes : ∀ i < 12, UInt8.ofNat (m >>> (8 * (11 - i))) = UInt8.ofNat (n >>> (8 * (11 - i))) := by
    have hmap := List.map_inj_left.mp (ObjectId.mk.inj h)
    exact fun i hi => hmap i (List.mem_range.mpr hi)
  refine Nat.eq_of_testBit_eq fun j => ?_
  by_cases hj : j < 96
  · -- The bit stands in one of the twelve bytes, which are counted from the front.
    have hbyte := congrArg UInt8.toNat (hbytes (11 - j / 8) (by omega))
    have hshift : 11 - (11 - j / 8) = j / 8 := by omega
    rw [hshift, UInt8.toNat_ofNat', UInt8.toNat_ofNat'] at hbyte
    have hplace : 8 * (j / 8) + j % 8 = j := Nat.div_add_mod j 8
    have hlt : j % 8 < 8 := Nat.mod_lt j (by decide)
    have hbit (k : Nat) : (k >>> (8 * (j / 8)) % 2 ^ 8).testBit (j % 8) = k.testBit j := by
      rw [Nat.testBit_mod_two_pow, Nat.testBit_shiftRight, hplace, decide_eq_true hlt, Bool.true_and]
    exact (hbit m).symm.trans ((congrArg (fun k => Nat.testBit k (j % 8)) hbyte).trans (hbit n))
  · have hpow : count ≤ 2 ^ j := Nat.pow_le_pow_right (by decide) (by omega)
    rw [Nat.testBit_lt_two_pow (by omega), Nat.testBit_lt_two_pow (by omega)]

end ObjectId

namespace Script

theorem identifiers_eq (n : Nat) (s : Script) :
    scriptedEngine.identifiers n s = (List.range n).map fun i => ObjectId.ofNumber (s.issued + 1 + i) := by
  induction n generalizing s with
  | zero => rfl
  | succ n ih =>
    rw [Engine.identifiers, ih, List.range_succ_eq_map, List.map_cons, List.map_map]
    refine congrArg _ (List.map_congr_left fun i _ => ?_)
    exact congrArg ObjectId.ofNumber (by simp [scriptedEngine, freshId]; omega)

theorem nodup_identifiers {n : Nat} {s : Script} (h : s.issued + n < ObjectId.count) :
    (scriptedEngine.identifiers n s).Nodup := by
  rw [identifiers_eq]
  refine List.Nodup.map_on ?_ List.nodup_range
  intro i hi j hj heq
  have hi := List.mem_range.mp hi
  have hj := List.mem_range.mp hj
  have := ObjectId.ofNumber_injective (by omega) (by omega) heq
  omega

end Script

end EntityStore
