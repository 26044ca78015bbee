import FerrumVM.BaseBytes

/-! Paths as text. A path is resolved without looking at any file: empty parts and `.` are dropped, `..` takes
back the part before it, and what is left at the root of the tree stays there. -/

namespace Base

namespace Path

def slash : UInt8 := 47
def dot : UInt8 := 46

def parts (path : Bytes) : List Bytes := path.splitOn slash

/-- One part of a path, from the place given by the parts before it, the innermost first. Nothing is above the
root of the tree; a relative path can go further up. -/
def enter (rooted : Bool) (place : List Bytes) (part : Bytes) : List Bytes :=
  if part = [] ∨ part = [dot] then place
  else if part = [dot, dot] then
    match place with
    | [] => if rooted then [] else [[dot, dot]]
    | inner :: outer => if inner = [dot, dot] then [dot, dot] :: inner :: outer else outer
  else part :: place

def rooted (path : Bytes) : Bool := path.head? == some slash

def resolve (path : Bytes) : List Bytes := (parts path).foldl (enter (rooted path)) []

/-- The path leads to the root that is given, or to a place beneath it. -/
def Beneath (root path : Bytes) : Prop :=
  rooted path = rooted root ∧ ∃ below, resolve path = below ++ resolve root ∧ [dot, dot] ∉ below

theorem Beneath.refl (root : Bytes) : Beneath root root := ⟨rfl, [], rfl, List.not_mem_nil⟩

/-- A name of a file: one part, and not the way up. -/
def Plain (name : Bytes) : Prop := slash ∉ name ∧ name ≠ [dot, dot]

theorem parts_append_slash (front back : Bytes) : parts (front ++ slash :: back) = parts front ++ parts back :=
  List.splitOn_append_cons_self front back

theorem parts_of_not_mem {name : Bytes} (h : slash ∉ name) : parts name = [name] := List.splitOn_eq_singleton h

theorem enter_nil (rooted : Bool) (place : List Bytes) : enter rooted place [] = place := if_pos (Or.inl rfl)

theorem enter_plain {name : Bytes} (h : Plain name) (rooted : Bool) (place : List Bytes) :
    enter rooted place name = place ∨ enter rooted place name = name :: place := by
  unfold enter
  by_cases hskip : name = [] ∨ name = [dot]
  · exact Or.inl (if_pos hskip)
  · rw [if_neg hskip, if_neg h.2]
    exact Or.inr rfl

end Path

end Base
