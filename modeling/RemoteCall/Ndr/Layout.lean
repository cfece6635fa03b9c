/-! Layouts of parameter data: what the fixed part of a value holds, and what its pointers refer to.
A grammar names layouts, so that a layout can refer to itself through a pointer. -/

namespace RemoteCall.Ndr

inductive Layout
  | u8
  | u16
  | u32
  | text
  /-- A count and that many items. -/
  | array (item : Layout)
  | record (members : List Layout)
  | pointer (target : Layout)
  /-- A pointer to the layout of that name. -/
  | link (name : String)
  /-- A level and a pointer to the layout of that level. When the level is written twice the first
  one is not read, and neither is the pointer of an unknown level; otherwise that pointer is null. -/
  | choice (twice : Bool) (arms : List (UInt32 × Layout))
  deriving Inhabited

abbrev Grammar := String → Layout

/-- The grammar of layouts that link to nothing. -/
def Grammar.empty : Grammar := fun _ => .record []

namespace Layout

mutual

/-- Whether two layouts are one and the same. -/
def same : Layout → Layout → Bool
  | .u8, .u8 => true
  | .u16, .u16 => true
  | .u32, .u32 => true
  | .text, .text => true
  | .array a, .array b => a.same b
  | .record as, .record bs => sameAll as bs
  | .pointer a, .pointer b => a.same b
  | .link m, .link n => m == n
  | .choice t as, .choice u bs => t == u && sameArms as bs
  | _, _ => false

def sameAll : List Layout → List Layout → Bool
  | [], [] => true
  | a :: as, b :: bs => a.same b && sameAll as bs
  | _, _ => false

def sameArms : List (UInt32 × Layout) → List (UInt32 × Layout) → Bool
  | [], [] => true
  | (m, a) :: as, (n, b) :: bs => m == n && a.same b && sameArms as bs
  | _, _ => false

end

mutual

theorem same_self : ∀ a : Layout, a.same a = true
  | .u8 | .u16 | .u32 | .text => by simp [same]
  | .array a => by simp [same, same_self a]
  | .record as => by simp [same, sameAll_self as]
  | .pointer a => by simp [same, same_self a]
  | .link n => by simp [same]
  | .choice _ as => by simp [same, sameArms_self as]

theorem sameAll_self : ∀ as : List Layout, sameAll as as = true
  | [] => by simp [sameAll]
  | a :: as => by simp [sameAll, same_self a, sameAll_self as]

theorem sameArms_self : ∀ as : List (UInt32 × Layout), sameArms as as = true
  | [] => by simp [sameArms]
  | (m, a) :: as => by simp [sameArms, same_self a, sameArms_self as]

end

/-- The layout that the arm of a level refers to. -/
def arm? (arms : List (UInt32 × Layout)) (level : UInt32) : Option Layout :=
  (arms.find? (·.1 == level)).map (·.2)

end Layout

end RemoteCall.Ndr
