import Mathlib.Data.List.Infix
import Ragx.Models

/-!
# JSON values as Python objects

Equality, membership and iteration of decoded JSON values. A number equals a truth value of
the same worth, `in` looks for a part of a text and for a key of a dict, and what is no
container raises.
-/
namespace Ragx

/-- A float, with the ones that are no numbers. -/
inductive PyFloat where
  | finite (q : ℚ)
  | infinity
  | negInfinity
  | nan
deriving DecidableEq, Repr

namespace PyFloat

def truthy : PyFloat → Bool
  | .finite q => q != 0
  | _ => true

/-- `x < t`. -/
def isBefore (x : PyFloat) (t : ℚ) : Bool :=
  match x with
  | .finite q => decide (q < t)
  | .negInfinity => true
  | .infinity | .nan => false

end PyFloat

namespace Json

def typeName : Json → String
  | .null => "NoneType"
  | .bool _ => "bool"
  | .num q => if q.den = 1 then "int" else "float"
  | .str _ => "str"
  | .arr _ => "list"
  | .obj _ => "dict"

/-- What a number or a truth value counts as. -/
def worth? : Json → Option ℚ
  | .num q => some q
  | .bool b => some (if b then 1 else 0)
  | _ => none

mutual

/-- `a == b`. -/
def pyEq : Json → Json → Bool
  | .null, .null => true
  | .str s, .str t => s == t
  | .arr xs, .arr ys => pyEqItems xs ys
  | .obj ms, .obj ns => ms.length == ns.length && pyEqMembers ms ns
  | a, b =>
    match a.worth?, b.worth? with
    | some p, some q => p == q
    | _, _ => false

def pyEqItems : List Json → List Json → Bool
  | [], [] => true
  | x :: xs, y :: ys => pyEq x y && pyEqItems xs ys
  | _, _ => false

/-- Every member of the first dict is in the second, whatever its place. -/
def pyEqMembers : List (String × Json) → List (String × Json) → Bool
  | [], _ => true
  | (key, value) :: ms, ns =>
    (match OrderedDict.lookupIn key ns with
      | some found => pyEq value found
      | none => false) && pyEqMembers ms ns

end

def hashable : Json → Bool
  | .arr _ | .obj _ => false
  | _ => true

def unhashable (x : Json) : Exc := .foreign ("unhashable type: '" ++ x.typeName ++ "'")

/-- The items that a loop over the value yields. -/
def iter : Json → Except Exc (List Json)
  | .arr xs => .ok xs
  | .obj ms => .ok (ms.map fun m => .str m.1)
  | .str s => .ok (s.toList.map fun c => .str c.toString)
  | x => .error (.foreign ("'" ++ x.typeName ++ "' object is not iterable"))

/-- The members of `set(value)`, up to repetitions. -/
def toSet (x : Json) : Except Exc (List Json) := do
  let items ← x.iter
  match items.find? fun item => !item.hashable with
  | some item => throw item.unhashable
  | none => return items

/-- `item in container`. -/
def pyIn (item : Json) : Json → Except Exc Bool
  | .arr xs => .ok (xs.any (pyEq · item))
  | .obj ms =>
    if item.hashable then .ok (ms.any fun m => pyEq (.str m.1) item) else .error item.unhashable
  | .str text =>
    match item with
    | .str needle => .ok (containsText needle text)
    | _ => .error (.foreign
        ("'in <string>' requires string as left operand, not " ++ item.typeName))
  | x => .error (.foreign ("argument of type '" ++ x.typeName ++ "' is not iterable"))

/-- `x.get(key, default)`. -/
def get (x : Json) (key : String) (default : Json) : Except Exc Json :=
  match x with
  | .obj members => .ok ((OrderedDict.lookupIn key members).getD default)
  | x => .error (.foreign ("'" ++ x.typeName ++ "' object has no attribute 'get'"))

/-- `x[key]`. -/
def item (x : Json) (key : String) : Except Exc Json :=
  match x with
  | .obj members =>
    match OrderedDict.lookupIn key members with
    | some x => .ok x
    | none => .error (.foreign ("'" ++ key ++ "'"))
  | .str _ => .error (.foreign "string indices must be integers, not 'str'")
  | .arr _ => .error (.foreign "list indices must be integers or slices, not str")
  | x => .error (.foreign ("'" ++ x.typeName ++ "' object is not subscriptable"))

variable {s t : String} {x : Json}

theorem item_eq_ok_iff {key : String} {value : Json} :
    x.item key = .ok value ↔ x.member? key = some value := by
  cases x with
  | obj members => cases h : OrderedDict.lookupIn key members <;> simp [item, member?, h]
  | null | bool _ | num _ | str _ | arr _ => simp [item, member?]

theorem get_of_member? {key : String} {value : Json} (h : x.member? key = some value)
    (default : Json) : x.get key default = .ok value := by
  cases x with
  | obj members =>
    rw [member?] at h
    rw [get, h, Option.getD_some]
  | null | bool _ | num _ | str _ | arr _ => cases h

/-! ## Texts as items -/

theorem pyEq_str : pyEq x (.str s) = true ↔ x = .str s := by
  cases x <;> simp [pyEq, worth?]

theorem any_pyEq_str {xs : List Json} : xs.any (pyEq · (.str s)) = true ↔ .str s ∈ xs := by
  rw [List.any_eq_true]
  constructor
  · rintro ⟨x, hx, heq⟩
    exact pyEq_str.mp heq ▸ hx
  · exact fun h => ⟨_, h, pyEq_str.mpr rfl⟩

theorem containsText_self (s : String) : containsText s s = true := by
  refine List.any_eq_true.mpr ⟨s.toList, (List.mem_tails _ _).mpr (List.suffix_refl _), ?_⟩
  exact List.isPrefixOf_iff_prefix.mpr (List.prefix_refl _)

end Json

end Ragx
