import LiveMarkup.Value.Method

/-! Integers at the edges of their range. Every operator and method of integers gives the exact result,
wrapped around, apart from divisions by zero and the two divisions that the machine does not carry out. -/

namespace LiveMarkup.Value

def wrapped (n : Int) : Value := int (Int64.ofInt n)

/-- The least integer is divided by minus one, for the quotient or for the remainder. -/
structure Overflows (op : BinaryOp) (a b : Value) : Prop where
  op : op = .div ∨ op = .mod
  left : a = int Int64.minValue
  right : b = int (-1)

/-- The result of a division of integers, given what it is where the machine carries it out. -/
def divided (a b : Int64) (v : Value) : Except Stop Value :=
  if b = 0 then .error (.error .divisionByZero)
  else if a = Int64.minValue ∧ b = -1 then .error (.fault .overflow)
  else .ok v

/-- What the operators and methods make of two integers. The quotient of integers is a double if there
is a remainder. -/
structure Wraps (a b : Int64) : Prop where
  sum : binary .add (int a) (int b) = .ok (wrapped (a.toInt + b.toInt))
  difference : binary .sub (int a) (int b) = .ok (wrapped (a.toInt - b.toInt))
  product : binary .mul (int a) (int b) = .ok (wrapped (a.toInt * b.toInt))
  quotient : binary .div (int a) (int b) = divided a b
    (if a.toInt.tmod b.toInt = 0 then wrapped (a.toInt.tdiv b.toInt) else float (a.toFloat / b.toFloat))
  remainder : binary .mod (int a) (int b) = divided a b (wrapped (a.toInt.tmod b.toInt))
  opposite : unary .negate (int a) = wrapped (-a.toInt)
  magnitude : (int a).invoke "abs" [] = .ok (.value (wrapped a.toInt.natAbs))

private theorem ofInt_tdiv (a b : Int64) : Int64.ofInt (a.toInt.tdiv b.toInt) = a / b := by
  rw [← Int64.toInt_inj, Int64.toInt_ofInt, Int64.toInt_div]

private theorem ofInt_tmod (a b : Int64) : Int64.ofInt (a.toInt.tmod b.toInt) = a % b := by
  rw [← Int64.toInt_mod, Int64.ofInt_toInt]

private theorem ofInt_natAbs (a : Int64) : Int64.ofInt a.toInt.natAbs = a.abs := by
  have habs : a.abs = if a.toInt < 0 then -a else a := by
    rw [← Int64.toBitVec_inj, Int64.toBitVec_abs, BitVec.abs, BitVec.msb_eq_toInt]
    by_cases hneg : a.toInt < 0
    · rw [if_pos hneg, if_pos (by simpa using hneg), Int64.toBitVec_neg]
      rfl
    · rw [if_neg hneg, if_neg (by simpa using hneg)]
  by_cases hneg : a.toInt < 0
  · have hnat : (a.toInt.natAbs : Int) = -a.toInt := by omega
    rw [habs, if_pos hneg, hnat, Int64.ofInt_neg, Int64.ofInt_toInt]
  · have hnat : (a.toInt.natAbs : Int) = a.toInt := by omega
    rw [habs, if_neg hneg, hnat, Int64.ofInt_toInt]

private theorem mod_eq_zero_iff (a b : Int64) : a % b = 0 ↔ a.toInt.tmod b.toInt = 0 := by
  rw [← Int64.toInt_inj, Int64.toInt_mod]
  rfl

private theorem checkDivisor_map (a b : Int64) (f : Unit → Value) :
    (checkDivisor a b).map f = divided a b (f ()) := by
  unfold checkDivisor divided
  split
  · rfl
  · split <;> rfl

theorem integers_wrap (a b : Int64) : Wraps a b where
  sum := by rw [wrapped, Int64.ofInt_add, Int64.ofInt_toInt, Int64.ofInt_toInt]; rfl
  difference := by rw [wrapped, Int64.ofInt_sub, Int64.ofInt_toInt, Int64.ofInt_toInt]; rfl
  product := by rw [wrapped, Int64.ofInt_mul, Int64.ofInt_toInt, Int64.ofInt_toInt]; rfl
  quotient := by
    simp only [wrapped, ofInt_tdiv, ← mod_eq_zero_iff]
    exact checkDivisor_map a b _
  remainder := by
    rw [wrapped, ofInt_tmod]
    exact checkDivisor_map a b _
  opposite := by rw [wrapped, Int64.ofInt_neg, Int64.ofInt_toInt]; rfl
  magnitude := by rw [wrapped, ofInt_natAbs]; rfl

inductive Ends (op : BinaryOp) (a b : Value) : Except Stop Value → Prop
  | value (v : Value) : Ends op a b (.ok v)
  | divisionByZero : Ends op a b (.error (.error .divisionByZero))
  | overflow (h : Overflows op a b) : Ends op a b (.error (.fault .overflow))

private theorem divided_ends {op : BinaryOp} (hop : op = .div ∨ op = .mod) (a b : Int64) (v : Value) :
    Ends op (int a) (int b) (divided a b v) := by
  unfold divided
  split
  · exact .divisionByZero
  · split
    case isTrue h => exact .overflow ⟨hop, congrArg int h.1, congrArg int h.2⟩
    case isFalse => exact .value v

theorem binary_ends (op : BinaryOp) (a b : Value) : Ends op a b (binary op a b) := by
  have hdiv : Ends .div a b (div a b) := by
    unfold div
    split
    · exact checkDivisor_map _ _ _ ▸ divided_ends (.inl rfl) _ _ _
    all_goals exact .value _
  have hmod : Ends .mod a b (mod a b) := by
    unfold mod
    split
    · exact checkDivisor_map _ _ _ ▸ divided_ends (.inr rfl) _ _ _
    all_goals exact .value _
  cases op with
  | div => exact hdiv
  | mod => exact hmod
  | _ => exact .value _

end LiveMarkup.Value
