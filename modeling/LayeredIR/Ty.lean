/-! Type descriptors and their text. -/
namespace LayeredIR

inductive Ty
  | int
  | float
  | bool
  | string
  | void
  | list (of : Ty)
  | set (of : Ty)
  | fn (params : List Ty) (returns : Ty)
  | future (of : Ty)
  | error
  deriving Inhabited, Repr

namespace Ty

mutual

def same : Ty → Ty → Bool
  | .int, .int | .float, .float | .bool, .bool | .string, .string | .void, .void
  | .error, .error => true
  | .list a, .list b | .set a, .set b | .future a, .future b => same a b
  | .fn params a, .fn params' b => sameAll params params' && same a b
  | _, _ => false

def sameAll : List Ty → List Ty → Bool
  | [], [] => true
  | a :: as, b :: bs => same a b && sameAll as bs
  | _, _ => false

end

mutual

theorem same_self (a : Ty) : a.same a = true := by
  cases a with
  | list of => simpa [same] using same_self of
  | set of => simpa [same] using same_self of
  | future of => simpa [same] using same_self of
  | fn params returns => simp [same, sameAll_self params, same_self returns]
  | _ => rfl

theorem sameAll_self (as : List Ty) : sameAll as as = true := by
  cases as with
  | nil => rfl
  | cons a as => simp [sameAll, same_self a, sameAll_self as]

end

mutual

theorem eq_of_same (a b : Ty) (h : a.same b = true) : a = b := by
  cases a with
  | list of =>
    cases b with
    | list of' => rw [eq_of_same of of' (by simpa [same] using h)]
    | _ => simp [same] at h
  | set of =>
    cases b with
    | set of' => rw [eq_of_same of of' (by simpa [same] using h)]
    | _ => simp [same] at h
  | future of =>
    cases b with
    | future of' => rw [eq_of_same of of' (by simpa [same] using h)]
    | _ => simp [same] at h
  | fn params returns =>
    cases b with
    | fn params' returns' =>
      simp only [same, Bool.and_eq_true] at h
      rw [eq_of_sameAll params params' h.1, eq_of_same returns returns' h.2]
    | _ => simp [same] at h
  | _ => cases b <;> first | rfl | simp [same] at h

theorem eq_of_sameAll (as bs : List Ty) (h : sameAll as bs = true) : as = bs := by
  cases as with
  | nil => cases bs <;> simp_all [sameAll]
  | cons a as =>
    cases bs with
    | nil => simp [sameAll] at h
    | cons b bs =>
      simp only [sameAll, Bool.and_eq_true] at h
      rw [eq_of_same a b h.1, eq_of_sameAll as bs h.2]

end

instance : DecidableEq Ty := fun a b =>
  decidable_of_iff (a.same b = true) ⟨eq_of_same a b, fun h => h ▸ same_self a⟩

def kind : Ty → String
  | .int => "int"
  | .float => "float"
  | .bool => "bool"
  | .string => "string"
  | .void => "void"
  | .list _ => "list"
  | .set _ => "set"
  | .fn _ _ => "fn"
  | .future _ => "future"
  | .error => "error"

mutual

def text : Ty → String
  | .list of => "list<" ++ of.text ++ ">"
  | .set of => "set<" ++ of.text ++ ">"
  | .future of => "future<" ++ of.text ++ ">"
  | .fn params returns => "fn(" ++ String.intercalate ", " (texts params) ++ ") -> " ++ returns.text
  | .int => "int"
  | .float => "float"
  | .bool => "bool"
  | .string => "string"
  | .void => "void"
  | .error => "error"

def texts : List Ty → List String
  | [] => []
  | ty :: rest => ty.text :: texts rest

end

end Ty
end LayeredIR
