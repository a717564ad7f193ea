import DeviceCode.Module.Basic

/-!
# Decidable equality of modules

Initializers nest through lists, so their equality is decided by a recursion of its own.
-/

namespace DeviceCode

namespace Initializer

mutual

/-- Whether two initializers are equal, leaf by leaf. -/
def same : Initializer → Initializer → Bool
  | scalar t l, scalar u k => t == u && l == k
  | symbol a, symbol b => a == b
  | array as, array bs => sameList as bs
  | string a, string b => a == b
  | zero, zero => true
  | _, _ => false

def sameList : List Initializer → List Initializer → Bool
  | [], [] => true
  | a :: as, b :: bs => a.same b && sameList as bs
  | _, _ => false

end

mutual

/-- The test for equality is right; it goes by induction on the arrays, together with
`sameList_iff`. -/
@[simp] theorem same_iff (a b : Initializer) : a.same b = true ↔ a = b := by
  cases a with
  | array as =>
      cases b with
      | array bs => rw [same, sameList_iff as bs, array.injEq]
      | _ => simp [same]
  | _ => cases b <;> simp [same]

theorem sameList_iff (as bs : List Initializer) : sameList as bs = true ↔ as = bs := by
  cases as with
  | nil => cases bs <;> simp [sameList]
  | cons a as =>
      cases bs with
      | nil => simp [sameList]
      | cons b bs =>
          rw [sameList, Bool.and_eq_true, same_iff a b, sameList_iff as bs, List.cons.injEq]

end

instance : DecidableEq Initializer := fun a b => decidable_of_iff _ (same_iff a b)

end Initializer

deriving instance DecidableEq for GlobalVariable

deriving instance DecidableEq for Module

end DeviceCode
