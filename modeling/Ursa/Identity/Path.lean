/-
# Identity.Path — where a key file lies

What `ursa/identity.rs` uses of `std::path` on Unix, on the bytes of a path.  A key file is
found by joining the directory and the name and setting the extension:

* `join` — a path that starts with a separator replaces the directory.
* `fileName` — the last component, if it is a name.  Separators at the end and `.` components
  behind a separator are passed over.
* `setExtension` — the new extension goes behind the stem of the file name, and whatever
  followed the stem is gone.  The stem ends at the last dot, unless that dot comes first.

So a name that is one component keeps only its stem (`keyPath_component`), and two such names
have the same key file exactly if they have the same stem (`keyPath_eq_iff`).
-/
import Ursa.DagCbor

namespace Ursa.Identity

set_option autoImplicit false

abbrev Path := Bytes

/-- `/` -/
def separator : UInt8 := 47

/-- `.` -/
def dot : UInt8 := 46

/-! ## `std::path` -/

/-- The directory with a separator at its end, if it needs one. -/
def withSeparator (dir : Path) : Path :=
  if dir = [] ∨ dir.getLast? = some separator then dir else dir ++ [separator]

def join (dir path : Path) : Path :=
  if path.head? = some separator then path else withSeparator dir ++ path

/-- What is passed over at the end of a path, here at the beginning of the reversed one. -/
def trim : Path → Path
  | 47 :: rest => trim rest
  | 46 :: 47 :: rest => trim rest
  | path => path

/-- The last component. -/
def lastComponent (path : Path) : Bytes :=
  ((trim path.reverse).takeWhile (· ≠ separator)).reverse

/-- What stands in front of the last component. -/
def beforeLast (path : Path) : Path := ((trim path.reverse).dropWhile (· ≠ separator)).reverse

def fileName (path : Path) : Option Bytes :=
  let last := lastComponent path
  if last = [] ∨ last = [dot] ∨ last = [dot, dot] then none else some last

def fileStem (name : Bytes) : Bytes :=
  match name.reverse.dropWhile (· ≠ dot) with
  | [] => name
  -- the only dot comes first
  | [_] => name
  | _ :: before => before.reverse

def setExtension (path : Path) (extension : Bytes) : Path :=
  match fileName path with
  | none => path
  | some name =>
      beforeLast path ++ (fileStem name ++ if extension = [] then [] else dot :: extension)

/-- The path without its last component; the root and the empty path have none. -/
def parent (path : Path) : Option Path :=
  if trim path.reverse = [] then none
  else
    let before := beforeLast path
    match trim before.reverse with
    -- the root, or the current directory
    | [] => some (before.take 1)
    | c :: rest => some (c :: rest).reverse

/-! ## Key files -/

/-- The path `IdentityManager` derives from a name and a directory. -/
def keyPath (name : String) (dir : Path) : Path :=
  setExtension (join dir (DagCbor.utf8 name)) (DagCbor.utf8 "pem")

/-- The name is one component of a path: not empty, without separators, not `.` or `..`. -/
structure SingleComponent (name : String) : Prop where
  nonempty : DagCbor.utf8 name ≠ []
  noSeparator : separator ∉ DagCbor.utf8 name
  notDot : DagCbor.utf8 name ≠ [dot]
  notDots : DagCbor.utf8 name ≠ [dot, dot]

/-- Nothing is passed over at the end of a path that ends in such a name. -/
theorem trim_component {name : Bytes} (nonempty : name ≠ []) (noSeparator : separator ∉ name)
    (notDot : name ≠ [dot]) (front : Path) :
    trim (name.reverse ++ front) = name.reverse ++ front := by
  have clean : ∀ c ∈ name.reverse, c ≠ 47 := by
    rintro c member rfl
    exact noSeparator (List.mem_reverse.mp member)
  have back : name.reverse ≠ [dot] := by
    intro same
    exact notDot (by simpa using congrArg List.reverse same)
  cases reversed : name.reverse with
  | nil => exact absurd (List.reverse_eq_nil_iff.mp reversed) nonempty
  | cons c rest =>
      rw [reversed] at clean back
      obtain ⟨notSeparator, others⟩ := List.forall_mem_cons.mp clean
      rw [List.cons_append]
      unfold trim
      split
      · rename_i same
        exact absurd (List.cons.inj same).1 notSeparator
      · rename_i tail same
        obtain ⟨rfl, shape⟩ := List.cons.inj same
        cases rest with
        | nil => exact absurd rfl back
        | cons d rest => exact absurd (List.cons.inj shape).1 (List.forall_mem_cons.mp others).1
      · rfl

theorem withSeparator_ends (dir : Path) :
    withSeparator dir = [] ∨ ∃ front, withSeparator dir = front ++ [separator] := by
  unfold withSeparator
  split
  · rename_i ends
    rcases ends with rfl | last
    · exact .inl rfl
    · exact .inr ((List.getLast?_eq_some_iff).mp last)
  · exact .inr ⟨dir, rfl⟩

/-- A path is cut between the directory and a name that is one component. -/
theorem cut_component {name : Bytes} (nonempty : name ≠ []) (noSeparator : separator ∉ name)
    (notDot : name ≠ [dot]) (dir : Path) :
    lastComponent (withSeparator dir ++ name) = name ∧
      beforeLast (withSeparator dir ++ name) = withSeparator dir := by
  have clean : ∀ c ∈ name.reverse, decide (c ≠ separator) = true := by
    intro c member
    simpa using fun same : c = separator => noSeparator (same ▸ List.mem_reverse.mp member)
  have stops : (withSeparator dir).reverse.takeWhile (· ≠ separator) = [] ∧
      (withSeparator dir).reverse.dropWhile (· ≠ separator) = (withSeparator dir).reverse := by
    rcases withSeparator_ends dir with empty | ⟨front, shape⟩
    · simp [empty]
    · simp [shape]
  simp only [lastComponent, beforeLast, List.reverse_append,
    trim_component nonempty noSeparator notDot]
  rw [List.takeWhile_append_of_pos clean, List.dropWhile_append_of_pos clean, stops.1, stops.2]
  simp

/-- **Where the key of a name lies**: in the directory, under the name's stem. -/
theorem keyPath_component {name : String} (component : SingleComponent name) (dir : Path) :
    keyPath name dir = withSeparator dir ++ (fileStem (DagCbor.utf8 name) ++ DagCbor.utf8 ".pem") := by
  have relative : (DagCbor.utf8 name).head? ≠ some separator := by
    intro first
    exact component.noSeparator (List.mem_of_head? first)
  obtain ⟨last, before⟩ := cut_component component.nonempty component.noSeparator component.notDot dir
  have file : fileName (withSeparator dir ++ DagCbor.utf8 name) = some (DagCbor.utf8 name) := by
    simp [fileName, last, component.nonempty, component.notDot, component.notDots]
  have extension : DagCbor.utf8 "pem" ≠ [] := by decide +kernel
  have dotted : dot :: DagCbor.utf8 "pem" = DagCbor.utf8 ".pem" := by decide +kernel
  rw [keyPath, join, if_neg relative, setExtension, file]
  simp only [before, if_neg extension, dotted]

example : keyPath "node" (DagCbor.utf8 "/keys") = DagCbor.utf8 "/keys/node.pem" := by
  decide +kernel

example : keyPath ".node" (DagCbor.utf8 "keys/") = DagCbor.utf8 "keys/.node.pem" := by
  decide +kernel

example : parent (DagCbor.utf8 "/keys/./node.pem") = some (DagCbor.utf8 "/keys") := by
  decide +kernel

/-- A path has a parent if its last byte can only belong to a name. -/
theorem parent_of_last {c : UInt8} (named : c ≠ separator ∧ c ≠ dot) (front : Path) :
    ∃ dir, parent (front ++ [c]) = some dir := by
  have kept : trim (front ++ [c]).reverse ≠ [] := by
    rw [List.reverse_append, List.reverse_singleton, List.singleton_append]
    unfold trim
    split
    · rename_i same
      exact absurd (List.cons.inj same).1 named.1
    · rename_i same
      exact absurd (List.cons.inj same).1 named.2
    · exact List.cons_ne_nil _ _
  rw [parent, if_neg kept]
  dsimp only
  split
  · exact ⟨_, rfl⟩
  · exact ⟨_, rfl⟩

theorem parent_pem (front : Path) : ∃ dir, parent (front ++ DagCbor.utf8 ".pem") = some dir := by
  have ending : DagCbor.utf8 ".pem" = DagCbor.utf8 ".pe" ++ [109] := by decide +kernel
  rw [ending, ← List.append_assoc]
  exact parent_of_last (by decide) _

/-- Two such names share their key file exactly if they share their stem. -/
theorem keyPath_eq_iff {name name' : String} (component : SingleComponent name)
    (component' : SingleComponent name') (dir : Path) :
    keyPath name dir = keyPath name' dir ↔
      fileStem (DagCbor.utf8 name) = fileStem (DagCbor.utf8 name') := by
  rw [keyPath_component component, keyPath_component component', List.append_cancel_left_eq,
    List.append_cancel_right_eq]

end Ursa.Identity
