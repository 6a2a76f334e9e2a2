import Mathlib.Data.List.Basic

/-! Values as `json.loads` returns them, with what Python does with them: the truth value, the
equality of `==`, the lookup in a dictionary and the classes of `isinstance`. The characters of the
strings are a parameter. -/

/-- A floating point number: one of the rational numbers, an infinity or not a number. -/
inductive PyFloat where
  | finite (q : Rat)
  | inf (negative : Bool)
  | nan
  deriving DecidableEq

/-- The members of a dictionary have distinct keys. -/
inductive Json (χ : Type) where
  | null
  | bool (b : Bool)
  | int (n : Int)
  | float (x : PyFloat)
  | str (s : List χ)
  | list (items : List (Json χ))
  | dict (members : List (List χ × Json χ))

namespace Json

variable {χ : Type}

/-- `isinstance(x, dict)`. -/
def members? : Json χ → Option (List (List χ × Json χ))
  | .dict members => some members
  | _ => none

/-- `isinstance(x, list)`. -/
def items? : Json χ → Option (List (Json χ))
  | .list items => some items
  | _ => none

/-- `isinstance(x, str)`. -/
def str? : Json χ → Option (List χ)
  | .str s => some s
  | _ => none

/-- `isinstance(x, bool)`. -/
def bool? : Json χ → Option Bool
  | .bool b => some b
  | _ => none

/-- `isinstance(x, int)`: the booleans are integers. -/
def int? : Json χ → Option Int
  | .int n => some n
  | .bool b => some b.toInt
  | _ => none

/-- The number, of any of the three classes. -/
def number? : Json χ → Option PyFloat
  | .float x => some x
  | x => x.int?.map fun n => .finite n

/-- `bool(x)`. -/
def truthy : Json χ → Bool
  | .null => false
  | .bool b => b
  | .int n => n != 0
  | .float x => x != .finite 0
  | .str s => !s.isEmpty
  | .list items => !items.isEmpty
  | .dict members => !members.isEmpty

def isNull : Json χ → Bool
  | .null => true
  | _ => false

/-- `==` of two numbers; what is not a number equals nothing. -/
def numberEq (x y : PyFloat) : Bool := x != .nan && x == y

/-- The member of a key. -/
def lookup [DecidableEq χ] (key : List χ) (members : List (List χ × Json χ)) : Option (Json χ) :=
  (members.find? fun m => m.1 = key).map Prod.snd

/-- `d.get(key)` of a dictionary. -/
def get [DecidableEq χ] (members : List (List χ × Json χ)) (key : List χ) : Json χ :=
  (lookup key members).getD .null

mutual

/-- `x == y`. -/
def eq [DecidableEq χ] : Json χ → Json χ → Bool
  | .null, y => y.isNull
  | .str s, y => y.str? == some s
  | .list xs, .list ys => eqItems xs ys
  | .dict xs, .dict ys => xs.length == ys.length && eqMembers xs ys
  | .bool b, y => y.number?.any (numberEq (.finite b.toInt))
  | .int n, y => y.number?.any (numberEq (.finite n))
  | .float x, y => y.number?.any (numberEq x)
  | _, _ => false

def eqItems [DecidableEq χ] : List (Json χ) → List (Json χ) → Bool
  | [], [] => true
  | x :: xs, y :: ys => eq x y && eqItems xs ys
  | _, _ => false

/-- Every member of the first dictionary has an equal one in the second. -/
def eqMembers [DecidableEq χ] : List (List χ × Json χ) → List (List χ × Json χ) → Bool
  | [], _ => true
  | (key, x) :: xs, ys => (lookup key ys).any (eq x) && eqMembers xs ys

end

@[simp] theorem isNull_iff {x : Json χ} : x.isNull = true ↔ x = .null := by
  cases x <;> simp [isNull]

variable [DecidableEq χ]

@[simp] theorem lookup_nil (key : List χ) : lookup key [] = none := rfl

theorem lookup_cons (key : List χ) (m : List χ × Json χ) (members : List (List χ × Json χ)) :
    lookup key (m :: members) = if m.1 = key then some m.2 else lookup key members := by
  unfold lookup
  rw [List.find?_cons]
  by_cases h : m.1 = key
  · simp [h]
  · simp [h]

@[simp] theorem null_eq (y : Json χ) : eq .null y = y.isNull := by rw [eq]

/-- Nothing but null equals null. -/
@[simp] theorem eq_null_iff {x : Json χ} : eq x .null = true ↔ x = .null := by
  cases x <;> simp [eq, isNull, str?, number?, int?]

/-- Nothing but a string equals a string. -/
@[simp] theorem eq_str_iff {x : Json χ} {s : List χ} : eq x (.str s) = true ↔ x = .str s := by
  cases x with
  | str t =>
      rw [eq, str?, Json.str.injEq, beq_iff_eq, Option.some_inj]
      exact eq_comm
  | _ => simp [eq, isNull, number?, int?]

theorem str_eq_iff {x : Json χ} {s : List χ} : eq (.str s) x = true ↔ x = .str s := by
  cases x with
  | str t => rw [eq, str?, Json.str.injEq, beq_iff_eq, Option.some_inj]
  | _ => simp [eq, str?]

/-- Values that are equal are both null or neither. -/
theorem null_iff_of_eq {x y : Json χ} (h : eq x y = true) : x = .null ↔ y = .null := by
  constructor
  · rintro rfl
    rwa [null_eq, isNull_iff] at h
  · rintro rfl
    exact eq_null_iff.mp h

end Json
