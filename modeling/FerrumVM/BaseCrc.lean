import Mathlib

/-! Cyclic redundancy codes as division of polynomials over the field of two elements. A register that is
shifted towards its lowest bit holds a polynomial in reflected form: the lowest bit is the coefficient of the
highest power. A step of the register is then a multiplication by `X`, up to a multiple of the generator. -/

namespace Base.Crc

open Polynomial

variable {w k : Nat}

def coef (b : Bool) : ZMod 2 := if b then 1 else 0

theorem coef_xor (b c : Bool) : coef (b ^^ c) = coef b + coef c := by
  cases b <;> cases c <;> decide

/-! ### Strings of bits -/

/-- A string of bits as a polynomial: the first bit belongs to the highest power. -/
noncomputable def ofBits : List Bool → (ZMod 2)[X]
  | [] => 0
  | b :: bits => C (coef b) * X ^ bits.length + ofBits bits

theorem ofBits_append (front back : List Bool) :
    ofBits (front ++ back) = ofBits front * X ^ back.length + ofBits back := by
  induction front with
  | nil => simp [ofBits]
  | cons b front ih =>
    simp only [List.cons_append, ofBits, ih, List.length_append, pow_add]
    ring

theorem ofBits_replicate_false (n : Nat) : ofBits (List.replicate n false) = 0 := by
  induction n with
  | zero => rfl
  | succ n ih => simp [List.replicate_succ, ofBits, ih, coef]

theorem ofBits_map_not (bits : List Bool) :
    ofBits (bits.map not) = ofBits bits + ofBits (List.replicate bits.length true) := by
  induction bits with
  | nil => simp [ofBits]
  | cons b bits ih =>
    have hnot : coef (!b) = coef b + coef true := by rw [← coef_xor, Bool.xor_true]
    simp only [List.map_cons, List.length_cons, List.replicate_succ, ofBits, ih, List.length_map,
      List.length_replicate, hnot, map_add]
    ring

theorem coeff_ofBits (bits : List Bool) (i : Nat) : (ofBits bits).coeff i = coef (bits.reverse[i]?.getD false) := by
  induction bits with
  | nil => rfl
  | cons b bits ih =>
    rw [ofBits, coeff_add, coeff_C_mul_X_pow, ih, List.reverse_cons, List.getElem?_append, List.length_reverse]
    obtain h | rfl | h := Nat.lt_trichotomy i bits.length
    · rw [if_neg h.ne, if_pos h, zero_add]
    · simp [coef]
    · rw [if_neg h.ne', if_neg h.not_gt, List.getElem?_eq_none (by simp; omega),
        List.getElem?_eq_none (by simp; omega)]
      exact zero_add _

def complementFront (n : Nat) (bits : List Bool) : List Bool := (bits.take n).map not ++ bits.drop n

theorem ofBits_complementFront {n : Nat} (front back : List Bool) (h : back.length = n) :
    ofBits (complementFront n (front ++ back)) =
      ofBits (front ++ back) + ofBits (List.replicate n true) * X ^ front.length := by
  have htake : ((front ++ back).take n).length = n := by simp; omega
  have hdrop : ((front ++ back).drop n).length = front.length := by simp; omega
  have hsplit := ofBits_append ((front ++ back).take n) ((front ++ back).drop n)
  rw [List.take_append_drop, hdrop] at hsplit
  rw [complementFront, ofBits_append, ofBits_map_not, htake, hdrop, hsplit]
  ring

/-! ### Registers -/

noncomputable def ofRegister (r : BitVec w) : (ZMod 2)[X] := ofFn w fun i => coef (r.getMsbD i)

theorem coeff_ofRegister (r : BitVec w) (i : Nat) : (ofRegister r).coeff i = coef (r.getMsbD i) := by
  by_cases h : i < w
  · exact ofFn_coeff_eq_val_of_lt _ h
  · rw [BitVec.getMsbD_of_ge r i (Nat.le_of_not_lt h)]
    exact ofFn_coeff_eq_zero_of_ge _ (Nat.le_of_not_lt h)

theorem degree_ofRegister_lt (r : BitVec w) : (ofRegister r).degree < w := ofFn_degree_lt _

theorem ofRegister_xor (r s : BitVec w) : ofRegister (r ^^^ s) = ofRegister r + ofRegister s := by
  ext i
  rw [coeff_add, coeff_ofRegister, coeff_ofRegister, coeff_ofRegister, BitVec.getMsbD_xor, coef_xor]

theorem ofRegister_setWidth (r : BitVec k) (h : k ≤ w) : ofRegister (r.setWidth w) = ofRegister r * X ^ (w - k) := by
  ext i
  rw [coeff_mul_X_pow', coeff_ofRegister, coeff_ofRegister, BitVec.getMsbD_setWidth]
  split_ifs with hi
  · rw [show i + k - w = i - (w - k) by omega]
    simp [hi]
  · simp [hi, coef]

/-- The bits of a register in the order in which they are shifted out. -/
def shiftedOut (r : BitVec w) : List Bool := (List.range w).map r.getLsbD

theorem length_shiftedOut (r : BitVec w) : (shiftedOut r).length = w := by simp [shiftedOut]

theorem ofBits_shiftedOut (r : BitVec w) : ofBits (shiftedOut r) = ofRegister r := by
  ext i
  rw [coeff_ofBits, coeff_ofRegister]
  by_cases h : i < w
  · simp [shiftedOut, h, BitVec.getMsbD]
  · rw [List.getElem?_eq_none (by simp [length_shiftedOut]; omega), BitVec.getMsbD_of_ge r i (Nat.le_of_not_lt h)]
    rfl

/-- The register that holds the coefficients of the powers below `X ^ w`. -/
noncomputable def toRegister (w : Nat) (p : (ZMod 2)[X]) : BitVec w := .ofFnBE fun i => decide (p.coeff i = 1)

theorem toRegister_ofRegister (r : BitVec w) : toRegister w (ofRegister r) = r := by
  refine BitVec.eq_of_getMsbD_eq fun i hi => ?_
  rw [toRegister, BitVec.getMsbD_ofFnBE, dif_pos hi, coeff_ofRegister]
  cases r.getMsbD i <;> rfl

/-! ### Division -/

/-- The generator, its coefficients below the highest in the register `poly`. -/
noncomputable def generator (poly : BitVec w) : (ZMod 2)[X] := X ^ w + ofRegister poly

theorem monic_generator (poly : BitVec w) : (generator poly).Monic := monic_X_pow_add (degree_ofRegister_lt poly)

def step (poly r : BitVec w) : BitVec w := if r.getLsbD 0 then (r >>> 1) ^^^ poly else r >>> 1

theorem ofRegister_step (poly r : BitVec w) :
    ofRegister (step poly r) = X * ofRegister r + C (coef (r.getLsbD 0)) * generator poly := by
  have hshift : ofRegister (r >>> 1) = X * ofRegister r + C (coef (r.getLsbD 0)) * X ^ w := by
    ext i
    rw [coeff_add, coeff_C_mul_X_pow, coeff_ofRegister, BitVec.getMsbD_ushiftRight]
    cases i with
    | zero => cases w <;> simp [coef]
    | succ i =>
      rw [coeff_X_mul, coeff_ofRegister]
      obtain h | h | h := Nat.lt_trichotomy (i + 1) w
      · simp [h, h.ne]
      · -- the two copies of the bit that is shifted out cancel
        have hlast : r.getMsbD i = r.getLsbD 0 := by
          simp [BitVec.getMsbD, show i < w by omega, show w - 1 - i = 0 by omega]
        rw [if_pos h, hlast, ← coef_xor, Bool.xor_self]
        simp [h]
      · rw [BitVec.getMsbD_of_ge r i (by omega)]
        simp [h.not_gt, h.ne', coef]
  unfold step generator
  cases hbit : r.getLsbD 0 with
  | false => simpa [hbit, coef] using hshift
  | true =>
    have hone : C (coef true) = 1 := C_1
    rw [if_pos rfl, ofRegister_xor, hshift, hbit, hone]
    ring

/-- A register as an element of the quotient by the generator. -/
noncomputable def residue (poly r : BitVec w) : AdjoinRoot (generator poly) := .mk _ (ofRegister r)

theorem residue_step (poly r : BitVec w) : residue poly (step poly r) = .mk _ X * residue poly r := by
  rw [residue, ofRegister_step, map_add, map_mul, map_mul, AdjoinRoot.mk_self, mul_zero, add_zero]
  rfl

theorem residue_steps (poly r : BitVec w) (n : Nat) :
    residue poly ((step poly)^[n] r) = .mk _ (X ^ n) * residue poly r := by
  induction n with
  | zero => rw [Function.iterate_zero_apply, pow_zero, map_one, one_mul]
  | succ n ih => rw [Function.iterate_succ_apply', residue_step, ih, ← mul_assoc, ← map_mul, pow_succ']

/-- A word of the message is added to the lowest places and shifted out. -/
def feed (poly r : BitVec w) (word : BitVec k) : BitVec w := (step poly)^[k] (r ^^^ word.setWidth w)

theorem residue_feed (poly r : BitVec w) (word : BitVec k) (h : k ≤ w) :
    residue poly (feed poly r word) = .mk _ (X ^ k) * residue poly r + .mk _ (ofBits (shiftedOut word) * X ^ w) := by
  have hpow : X ^ k * (ofRegister word * X ^ (w - k)) = ofRegister word * X ^ w := by
    rw [← Nat.sub_add_cancel h, pow_add, Nat.add_sub_cancel]
    ring
  rw [feed, residue_steps, residue, ofRegister_xor, map_add, mul_add, ofRegister_setWidth word h, ← map_mul,
    ← map_mul (AdjoinRoot.mk _), hpow, ofBits_shiftedOut, map_mul]
  rfl

theorem residue_foldl_feed (poly r : BitVec w) (words : List (BitVec k)) (h : k ≤ w) :
    residue poly (words.foldl (feed poly) r) = .mk _ (X ^ (words.flatMap shiftedOut).length) * residue poly r +
      .mk _ (ofBits (words.flatMap shiftedOut) * X ^ w) := by
  induction words generalizing r with
  | nil => simp [ofBits]
  | cons word words ih =>
    rw [List.foldl_cons, ih, residue_feed poly r word h, List.flatMap_cons, List.length_append, length_shiftedOut,
      ofBits_append, pow_add]
    simp only [map_add, map_mul]
    ring

/-- **The register after a message** that starts with all bits set holds the remainder of the message, followed by
as many zeros as the register has bits, with that many of its first bits complemented. -/
theorem ofRegister_foldl_feed (poly : BitVec w) (words : List (BitVec k)) (h : k ≤ w) :
    ofRegister (words.foldl (feed poly) (.allOnes w)) =
      ofBits (complementFront w (words.flatMap shiftedOut ++ List.replicate w false)) %ₘ generator poly := by
  have hones : ofRegister (.allOnes w) = ofBits (List.replicate w true) := by
    rw [← ofBits_shiftedOut]
    congr 1
    refine List.eq_replicate_iff.mpr ⟨length_shiftedOut _, fun b hb => ?_⟩
    obtain ⟨i, hi, rfl⟩ := List.mem_map.mp hb
    simpa using hi
  have hresidue := residue_foldl_feed poly (.allOnes w) words h
  rw [residue, residue, hones, ← map_mul, ← map_add, AdjoinRoot.mk_eq_mk] at hresidue
  rw [ofBits_complementFront _ _ List.length_replicate, ofBits_append, ofBits_replicate_false, List.length_replicate,
    add_zero, add_comm, mul_comm _ (X ^ (words.flatMap shiftedOut).length)]
  refine .symm ((modByMonic_eq_of_dvd_sub (monic_generator poly) hresidue).symm.trans ?_)
  refine (modByMonic_eq_self_iff (monic_generator poly)).mpr ?_
  rw [generator, degree_add_eq_left_of_degree_lt (by simpa using degree_ofRegister_lt poly), degree_X_pow]
  exact degree_ofRegister_lt _

end Base.Crc
