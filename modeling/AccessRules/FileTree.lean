/-
A tree of files, and what reading a path of it gives: files for commands to run over. A path is walked name by name,
from the home directory or, when it begins with a slash, from the top; every name of it is looked up in a directory. A
directory is there when it is on the way to a file or to the home directory.

- `read_name`: what a name by itself is read as.
-/
import AccessRules.FactFile

namespace AccessRules

/-- a place in a tree: the names that lead to it from the top -/
abbrev Place := List String

/-- files, each at a place of its own, and the directory where paths begin -/
structure FileTree where
  files : List (Place × ByteArray)
  home : Place

namespace FileTree

/-- how many bytes a name of a path may have -/
def nameLimit : Nat := 255

/-- how many bytes a path may have -/
def pathLimit : Nat := 4095

/-- what the file at a place holds -/
def contents? (t : FileTree) (p : Place) : Option ByteArray := t.files.lookup p

/-- whether a place is on the way to a file or to the home directory -/
def isDirectory (t : FileTree) (p : Place) : Bool :=
  p.isPrefixOf t.home || t.files.any fun file => p != file.1 && p.isPrefixOf file.1

/-- the place a name leads to -/
def step (t : FileTree) (p : Place) (name : String) : Except ReadError Place :=
  if !t.isDirectory p then .error .notDirectory
  else if name = "" || name = "." then .ok p
  else if name = ".." then .ok p.dropLast
  else if nameLimit < name.utf8ByteSize then .error .nameTooLong
  else if t.isDirectory (p ++ [name]) || (t.contents? (p ++ [name])).isSome then .ok (p ++ [name])
  else .error .notFound

/-- the place names lead to, one after another -/
def walk (t : FileTree) (p : Place) (names : List String) : Except ReadError Place := names.foldlM t.step p

/-- the names of a path -/
def names (path : String) : List String := (path.toList.splitOn '/').map String.ofList

/-- where a path begins -/
def start (t : FileTree) (path : String) : Place := if path.toList.head? = some '/' then [] else t.home

/-- what the file at a path holds -/
def read (t : FileTree) (path : String) : Except ReadError ByteArray :=
  if pathLimit < path.utf8ByteSize then .error .nameTooLong
  else if path = "" then .error .notFound
  else
    match t.walk (t.start path) (names path) with
    | .error cause => .error cause
    | .ok p =>
      match t.contents? p with
      | some bytes => .ok bytes
      | none => .error .isDirectory

/-! ## A name by itself -/

/-- a name that a file can have -/
structure IsName (name : String) : Prop where
  not_slash : '/' ∉ name.toList
  ne_empty : name ≠ ""
  ne_dot : name ≠ "."
  ne_dots : name ≠ ".."
  short : name.utf8ByteSize ≤ nameLimit

namespace IsName

variable {name : String}

theorem names_eq (h : IsName name) : names name = [name] := by
  rw [names, List.splitOn_eq_singleton h.not_slash, List.map_singleton, String.ofList_toList]

theorem start_eq (h : IsName name) (t : FileTree) : t.start name = t.home :=
  if_neg fun hhead => h.not_slash (List.mem_of_mem_head? hhead)

/-- in a directory a name leads to what has that name there -/
theorem step_eq (h : IsName name) (t : FileTree) (p : Place) (hp : t.isDirectory p = true) :
    t.step p name = if t.isDirectory (p ++ [name]) || (t.contents? (p ++ [name])).isSome then .ok (p ++ [name])
      else .error .notFound := by
  have hshort : ¬ nameLimit < name.utf8ByteSize := Nat.not_lt.2 h.short
  simp [step, hp, h.ne_empty, h.ne_dot, h.ne_dots, hshort]

end IsName

theorem isDirectory_home (t : FileTree) : t.isDirectory t.home = true := by
  simp [isDirectory]

/-- **A name as a path** is that of a file in the home directory, of a directory there, or of nothing. -/
theorem read_name (t : FileTree) (name : String) (h : IsName name) :
    t.read name = match t.contents? (t.home ++ [name]) with
      | some bytes => .ok bytes
      | none => .error (if t.isDirectory (t.home ++ [name]) then .isDirectory else .notFound) := by
  have hlimit : ¬ pathLimit < name.utf8ByteSize := Nat.not_lt.2 (Nat.le_trans h.short (by decide))
  have hwalk : t.walk (t.start name) (names name) = t.step t.home name := by
    rw [h.names_eq, h.start_eq, walk, List.foldlM_cons]
    exact bind_pure _
  rw [read, if_neg hlimit, if_neg h.ne_empty, hwalk, h.step_eq t t.home t.isDirectory_home]
  cases hc : t.contents? (t.home ++ [name]) with
  | some bytes => simp [hc]
  | none => cases t.isDirectory (t.home ++ [name]) <;> simp [hc]

end FileTree

end AccessRules
