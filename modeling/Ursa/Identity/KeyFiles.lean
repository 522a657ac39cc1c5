/-
# Identity.KeyFiles — what becomes of a key file

`save_eq` says what saving does; from it comes what the three calls of `IdentityManager` do
to the file at the key path and that they touch no other (`save_elsewhere`).

* `identity_is_stable` — once `loadOrNew` has returned a manager, every later call returns
  the same one and leaves the file as it is.
* `key_files_are_kept_iff` — a key file that is there is overwritten exactly if it makes
  `load` return an error and can be written: `loadOrNew` takes every error for "not found".
-/
import Ursa.Identity.Manager
import Mathlib.Logic.Nontrivial.Basic

namespace Ursa.Identity

set_option autoImplicit false

open Ursa.Theory (Outcome Pem)
open FileSystem

variable {K : Type} {lib : KeyLib K}

/-! ## One file -/

/-- Two file systems are the same as far as the file at a path goes. -/
structure AgreeAt (path : Path) (fs fs' : FileSystem) : Prop where
  entry : fs.entries path = fs'.entries path
  dirs : fs.canMakeDir = fs'.canMakeDir
  files : fs.canMakeFile = fs'.canMakeFile

namespace AgreeAt

variable {path : Path} {fs fs' fs'' : FileSystem}

theorem refl (path : Path) (fs : FileSystem) : AgreeAt path fs fs := ⟨rfl, rfl, rfl⟩

theorem symm (agree : AgreeAt path fs fs') : AgreeAt path fs' fs :=
  ⟨agree.entry.symm, agree.dirs.symm, agree.files.symm⟩

theorem trans (agree : AgreeAt path fs fs') (agree' : AgreeAt path fs' fs'') :
    AgreeAt path fs fs'' :=
  ⟨agree.entry.trans agree'.entry, agree.dirs.trans agree'.dirs, agree.files.trans agree'.files⟩

theorem emptied (agree : AgreeAt path fs fs') : fs.emptied path = fs'.emptied path := by
  simp only [FileSystem.emptied, agree.entry, agree.files]

theorem makesDir (agree : AgreeAt path fs fs') (dir : Path) : fs.makesDir dir = fs'.makesDir dir := by
  simp only [FileSystem.makesDir, agree.dirs]

end AgreeAt

@[simp] theorem setFile_entries (fs : FileSystem) (path : Path) (file : File) :
    (fs.setFile path file).entries path = some (.file file) :=
  Function.update_self path _ _

theorem setFile_elsewhere {path other : Path} (differ : other ≠ path) (fs : FileSystem) (file : File) :
    AgreeAt other (fs.setFile path file) fs :=
  ⟨Function.update_of_ne differ _ _, rfl, rfl⟩

theorem setFile_agree {path : Path} {fs fs' : FileSystem} (agree : AgreeAt path fs fs') (file : File) :
    AgreeAt path (fs.setFile path file) (fs'.setFile path file) :=
  ⟨by rw [setFile_entries, setFile_entries], agree.dirs, agree.files⟩

/-! ## Saving -/

/-- Saving at the path succeeds. -/
def Saveable (fs : FileSystem) (path : Path) : Prop :=
  (∃ dir, parent path = some dir ∧ fs.makesDir dir = true) ∧
    ∃ file, fs.emptied path = .ok file ∧ file.owned = true

theorem save_of_saveable (k : K) {fs : FileSystem} {path : Path} (saveable : Saveable fs path) :
    Keypair.save lib (.ed25519 k) path fs = (.ok (), fs.setFile path (keyFile lib k)) := by
  obtain ⟨⟨dir, above, made⟩, file, emptied, owned⟩ := saveable
  rw [save_eq, above]
  simp only [made, emptied, owned, if_true]

theorem saveable_of_ok {k : K} {fs fs' : FileSystem} {path : Path}
    (ok : Keypair.save lib (.ed25519 k) path fs = (.ok (), fs')) : Saveable fs path := by
  rw [save_eq] at ok
  cases above : parent path with
  | none => simp [above] at ok
  | some dir =>
      rw [above] at ok
      cases made : fs.makesDir dir with
      | false => simp [made] at ok
      | true =>
          simp only [made, if_true] at ok
          cases emptied : fs.emptied path with
          | error e => simp [emptied] at ok
          | ok file =>
              cases owned : file.owned with
              | false => simp [emptied, owned] at ok
              | true => exact ⟨⟨dir, above, made⟩, file, emptied, owned⟩

theorem AgreeAt.saveable {path : Path} {fs fs' : FileSystem} (agree : AgreeAt path fs fs')
    (saveable : Saveable fs path) : Saveable fs' path := by
  obtain ⟨⟨dir, above, made⟩, file, opened, owned⟩ := saveable
  exact ⟨⟨dir, above, (agree.makesDir dir).symm.trans made⟩, file, agree.emptied.symm.trans opened, owned⟩

/-- Saving leaves the other files alone. -/
theorem save_elsewhere (lib : KeyLib K) (k : K) {path other : Path} (differ : other ≠ path)
    (fs : FileSystem) : AgreeAt other (Keypair.save lib (.ed25519 k) path fs).2 fs := by
  rw [save_eq]
  split
  · exact .refl other fs
  · split
    · split
      · exact .refl other fs
      · split
        · exact setFile_elsewhere differ fs _
        · exact setFile_elsewhere differ fs _
    · exact .refl other fs

/-- Saving cannot tell two file systems apart that agree at the path. -/
theorem save_agree (k : K) {path : Path} {fs fs' : FileSystem} (agree : AgreeAt path fs fs') :
    AgreeAt path (Keypair.save lib (.ed25519 k) path fs).2 (Keypair.save lib (.ed25519 k) path fs').2 := by
  rw [save_eq, save_eq, agree.emptied]
  cases parent path with
  | none => exact agree
  | some dir =>
      dsimp only
      rw [agree.makesDir dir]
      split
      · cases fs'.emptied path with
        | error e => exact agree
        | ok file =>
            dsimp only
            split
            · exact setFile_agree agree _
            · exact setFile_agree agree _
      · exact agree

/-- A saved key can be saved over. -/
theorem saveable_setFile (k : K) {fs : FileSystem} {path : Path} (saveable : Saveable fs path) :
    Saveable (fs.setFile path (keyFile lib k)) path := by
  refine ⟨saveable.1, { keyFile lib k with contents := [] }, ?_, rfl⟩
  simp [FileSystem.emptied, keyFile]

/-! ## The calls -/

theorem new_snd (name : String) (dir : Path) (k : K) (fs : FileSystem) :
    (IdentityManager.new lib name dir k fs).2 =
      (Keypair.save lib (.ed25519 k) (keyPath name dir) fs).2 := by
  unfold IdentityManager.new
  cases saved : Keypair.save lib (.ed25519 k) (keyPath name dir) fs with
  | mk outcome fs' => cases outcome <;> rfl

theorem new_of_saveable {name : String} {dir : Path} (k : K) {fs : FileSystem}
    (saveable : Saveable fs (keyPath name dir)) :
    IdentityManager.new lib name dir k fs =
      (.ok { name, dir, identity := .ed25519 k }, fs.setFile (keyPath name dir) (keyFile lib k)) := by
  simp only [IdentityManager.new, save_of_saveable k saveable, Outcome.expect_ok, Outcome.andThen_ok]

theorem saveable_of_new {name : String} {dir : Path} {k : K} {im : IdentityManager K}
    {fs fs' : FileSystem} (ok : IdentityManager.new lib name dir k fs = (.ok im, fs')) :
    Saveable fs (keyPath name dir) := by
  obtain ⟨_, middle, saved, -⟩ := Outcome.andThen_eq_ok ok
  have done := Outcome.expect_eq_ok (congrArg Prod.fst saved)
  exact saveable_of_ok (Prod.ext done rfl)

/-- Loading looks at the file and at nothing else. -/
theorem load_congr {fs fs' : FileSystem} {path : Path} (same : fs'.entries path = fs.entries path) :
    Keypair.load lib path fs' = Keypair.load lib path fs := by
  simp only [Keypair.load, FileSystem.readToString, same]

theorem load_keyFile (lawful : lib.Lawful) {fs : FileSystem} {path : Path} {k : K}
    (there : fs.entries path = some (.file (keyFile lib k))) :
    Keypair.load lib path fs = .ok (.ed25519 k) :=
  load_pemText lawful there rfl rfl

/-- `loadOrNew` by what loading the key says. -/
theorem loadOrNew_eq (lib : KeyLib K) (name : String) (dir : Path) (k : K) (fs : FileSystem) :
    IdentityManager.loadOrNew lib name dir k fs =
      match Keypair.load lib (keyPath name dir) fs with
      | .ok identity => (.ok { name, identity, dir }, fs)
      | .err _ => IdentityManager.new lib name dir k fs
      | .panic m => (.panic m, fs)
      | .diverge => (.diverge, fs) := by
  unfold IdentityManager.loadOrNew IdentityManager.load
  cases Keypair.load lib (keyPath name dir) fs <;> rfl

/-- `loadOrNew` leaves the other files alone. -/
theorem loadOrNew_elsewhere (lib : KeyLib K) {name : String} {dir other : Path}
    (differ : other ≠ keyPath name dir) (k : K) (fs : FileSystem) :
    AgreeAt other (IdentityManager.loadOrNew lib name dir k fs).2 fs := by
  rw [loadOrNew_eq]
  cases Keypair.load lib (keyPath name dir) fs with
  | err e =>
      dsimp only
      rw [new_snd]
      exact save_elsewhere lib k differ fs
  | _ => exact .refl other fs

/-! ## Keys that are their bytes -/

/-- Keypairs as 64 bytes that are not looked at. -/
def plainKeys : KeyLib { b : Bytes // b.length = 64 } where
  encode := Subtype.val
  decode b := if length : b.length = 64 then some ⟨b, length⟩ else none
  pemEncode := Pem.encode
  pemParse := Pem.parse

theorem plainKeys_lawful : plainKeys.Lawful where
  length_encode k := k.2
  decode_encode k := by simp [plainKeys, k.2]
  pemParse_encode contents := by
    have tagged : "PRIVATE KEY" ≠ "" := by decide
    have clean : '-' ∉ "PRIVATE KEY".toList := by decide
    simp only [plainKeys]
    exact Pem.parse_encode ⟨"PRIVATE KEY", contents⟩ tagged clean

/-- The secret half of a keypair. -/
def sampleSecret : Bytes :=
  [0x9d, 0x61, 0xb1, 0x9d, 0xef, 0xfd, 0x5a, 0x60, 0xba, 0x84, 0x4a, 0xf4, 0x92, 0xec, 0x2c, 0xc4,
    0x44, 0x49, 0xc5, 0x69, 0x7b, 0x32, 0x69, 0x19, 0x70, 0x3b, 0xac, 0x03, 0x1c, 0xae, 0x7f, 0x60]

def sampleKey : { b : Bytes // b.length = 64 } :=
  ⟨sampleSecret ++
    [0xd7, 0x5a, 0x98, 0x01, 0x82, 0xb1, 0x0a, 0xb7, 0xd5, 0x4b, 0xfe, 0xd3, 0xc9, 0x64, 0x07, 0x3a,
      0x0e, 0xe1, 0x72, 0xf3, 0xda, 0xa6, 0x23, 0x25, 0xaf, 0x02, 0x1a, 0x68, 0xf7, 0x07, 0x51, 0x1a],
    rfl⟩

def otherKey : { b : Bytes // b.length = 64 } :=
  ⟨[0x4c, 0xcd, 0x08, 0x9b, 0x28, 0xff, 0x96, 0xda, 0x9d, 0xb6, 0xc3, 0x46, 0xec, 0x11, 0x4e, 0x0f,
      0x5b, 0x8a, 0x31, 0x9f, 0x35, 0xab, 0xa6, 0x24, 0xda, 0x8c, 0xf6, 0xed, 0x4f, 0xb8, 0xa6, 0xfb,
      0x3d, 0x40, 0x17, 0xc3, 0xe8, 0x43, 0x89, 0x5a, 0x92, 0xb7, 0x0a, 0xa7, 0x4d, 0x1b, 0x7e, 0xbc,
      0x9c, 0x98, 0x2c, 0xcf, 0x2e, 0xc4, 0x96, 0x8c, 0xc0, 0xcd, 0x55, 0xf1, 0x2a, 0xf4, 0x66, 0x0c],
    rfl⟩

def keysDir : Path := DagCbor.utf8 "/keys"

/-- Nothing is there, and everything can be made. -/
def emptyDisk : FileSystem where
  entries _ := none
  canMakeDir _ := true
  canMakeFile _ := true

theorem saveable_emptyDisk {name : String} (component : SingleComponent name) (dir : Path) :
    Saveable emptyDisk (keyPath name dir) := by
  obtain ⟨above, isParent⟩ := parent_pem (withSeparator dir ++ fileStem (DagCbor.utf8 name))
  rw [List.append_assoc, ← keyPath_component component] at isParent
  refine ⟨⟨above, isParent, ?_⟩, _, rfl, rfl⟩
  simp [makesDir, emptyDisk]

/-- On an empty disk `loadOrNew` makes the key. -/
theorem loadOrNew_emptyDisk (lib : KeyLib K) {name : String} (component : SingleComponent name)
    (dir : Path) (k : K) :
    IdentityManager.loadOrNew lib name dir k emptyDisk =
      (.ok { name, dir, identity := .ed25519 k },
        emptyDisk.setFile (keyPath name dir) (keyFile lib k)) := by
  have absent : Keypair.load lib (keyPath name dir) emptyDisk = .err .notFound := rfl
  rw [loadOrNew_eq, absent]
  exact new_of_saveable k (saveable_emptyDisk component dir)

theorem node_component : SingleComponent "node" where
  nonempty := by decide +kernel
  noSeparator := by decide +kernel
  notDot := by decide +kernel
  notDots := by decide +kernel

/-! ## Restarts -/

/-- A key that was saved is loaded. -/
theorem load_save (lawful : lib.Lawful) {k : K} {fs fs' : FileSystem} {path : Path}
    (saved : Keypair.save lib (.ed25519 k) path fs = (.ok (), fs')) :
    Keypair.load lib path fs' = .ok (.ed25519 k) := by
  have written := saved
  rw [save_of_saveable k (saveable_of_ok saved)] at written
  cases written
  exact load_keyFile lawful (setFile_entries _ _ _)

/-- What `loadOrNew` returned is what lies in the file. -/
theorem load_after_loadOrNew (lawful : lib.Lawful) {name : String} {dir : Path} {k : K}
    {im : IdentityManager K} {fs fs' : FileSystem}
    (ok : IdentityManager.loadOrNew lib name dir k fs = (.ok im, fs')) :
    ∃ identity, Keypair.load lib (keyPath name dir) fs' = .ok identity ∧
      im = { name, identity, dir } := by
  rw [loadOrNew_eq] at ok
  cases loaded : Keypair.load lib (keyPath name dir) fs with
  | ok identity =>
      rw [loaded] at ok
      cases ok
      exact ⟨identity, loaded, rfl⟩
  | err e =>
      rw [loaded] at ok
      have made : IdentityManager.new lib name dir k fs = _ := new_of_saveable k (saveable_of_new ok)
      cases made.symm.trans ok
      exact ⟨.ed25519 k, load_keyFile lawful (setFile_entries _ _ _), rfl⟩
  | panic m => simp [loaded] at ok
  | diverge => simp [loaded] at ok

/-- The time after a start: calls of `loadOrNew`, and changes that leave the file alone. -/
inductive Later (lib : KeyLib K) (name : String) (dir : Path) :
    FileSystem → List (Outcome IoError (IdentityManager K)) → FileSystem → Prop
  | now (fs : FileSystem) : Later lib name dir fs [] fs
  | restart {fs fs' : FileSystem} {outcomes : List (Outcome IoError (IdentityManager K))}
      (generated : K)
      (later : Later lib name dir (IdentityManager.loadOrNew lib name dir generated fs).2 outcomes fs') :
      Later lib name dir fs ((IdentityManager.loadOrNew lib name dir generated fs).1 :: outcomes) fs'
  | elsewhere {fs changed fs' : FileSystem} {outcomes : List (Outcome IoError (IdentityManager K))}
      (alone : changed.entries (keyPath name dir) = fs.entries (keyPath name dir))
      (later : Later lib name dir changed outcomes fs') : Later lib name dir fs outcomes fs'

/-- As long as the file can be loaded, it is loaded and not written. -/
theorem Later.stable {name : String} {dir : Path} {identity : Keypair K} {fs fs' : FileSystem}
    {outcomes : List (Outcome IoError (IdentityManager K))} (later : Later lib name dir fs outcomes fs')
    (loads : Keypair.load lib (keyPath name dir) fs = .ok identity) :
    (∀ o ∈ outcomes, o = .ok { name, identity, dir }) ∧
      fs'.entries (keyPath name dir) = fs.entries (keyPath name dir) := by
  induction later with
  | now fs => exact ⟨fun _ member => absurd member List.not_mem_nil, rfl⟩
  | @restart fs fs' outcomes generated later ih =>
      have here : IdentityManager.loadOrNew lib name dir generated fs =
          (.ok { name, identity, dir }, fs) := by
        rw [loadOrNew_eq, loads]
      rw [here] at ih ⊢
      obtain ⟨all, same⟩ := ih loads
      exact ⟨List.forall_mem_cons.mpr ⟨rfl, all⟩, same⟩
  | elsewhere alone later ih =>
      obtain ⟨all, same⟩ := ih ((load_congr alone).trans loads)
      exact ⟨all, same.trans alone⟩

/-- **The identity is stable over restarts.**  What `loadOrNew` returned once it returns
again, whatever key generation would yield, and the file stays as it is; and loading undoes
saving. -/
theorem identity_is_stable (lawful : lib.Lawful) :
    (∀ (name : String) (dir : Path) (generated : K) (im : IdentityManager K) (fs fs' : FileSystem),
      IdentityManager.loadOrNew lib name dir generated fs = (.ok im, fs') →
      ∀ outcomes fs'', Later lib name dir fs' outcomes fs'' →
        (∀ o ∈ outcomes, o = .ok im) ∧
          fs''.entries (keyPath name dir) = fs'.entries (keyPath name dir)) ∧
    (∀ (k : K) (path : Path) (fs fs' : FileSystem),
      Keypair.save lib (.ed25519 k) path fs = (.ok (), fs') →
        Keypair.load lib path fs' = .ok (.ed25519 k)) := by
  refine ⟨?_, fun k path fs fs' saved => load_save lawful saved⟩
  intro name dir generated im fs fs' returned outcomes fs'' later
  obtain ⟨identity, loads, rfl⟩ := load_after_loadOrNew lawful returned
  exact later.stable loads

/-- A node that starts twice, the second time with another key at hand. -/
theorem identity_is_stable_node :
    (IdentityManager.loadOrNew plainKeys "node" keysDir otherKey
      (IdentityManager.loadOrNew plainKeys "node" keysDir sampleKey emptyDisk).2).1 =
        .ok { name := "node", dir := keysDir, identity := .ed25519 sampleKey } := by
  have first := loadOrNew_emptyDisk plainKeys node_component keysDir sampleKey
  have again := (identity_is_stable plainKeys_lawful).1 "node" keysDir sampleKey _ emptyDisk _ first _ _
    (.restart otherKey (.now _))
  rw [first]
  exact again.1 _ List.mem_cons_self

/-! ## Files that are overwritten -/

/-- Loading returns an error and no panic: the file cannot be read, is not UTF-8, or holds a
private key of another length. -/
def Unloadable (lib : KeyLib K) (file : File) : Prop :=
  file.readable = false ∨ DagCbor.ofUtf8 file.contents = none ∨
    ∃ text parsed, DagCbor.ofUtf8 file.contents = some text ∧ lib.pemParse text = some parsed ∧
      parsed.tag = "PRIVATE KEY" ∧ parsed.contents.length ≠ 85

/-- The file can be written, and the directory stands in no way. -/
def Overwritable (fs : FileSystem) (path : Path) (file : File) : Prop :=
  file.writable = true ∧ ∃ dir, parent path = some dir ∧ fs.makesDir dir = true

theorem ofPem_err_iff (parsed : Pem) :
    (∃ e, Keypair.ofPem lib parsed = .err e) ↔
      parsed.tag = "PRIVATE KEY" ∧ parsed.contents.length ≠ 85 := by
  unfold Keypair.ofPem
  by_cases tag : parsed.tag = "PRIVATE KEY"
  · by_cases length : parsed.contents.length = 85
    · rw [if_pos tag, if_neg (not_not.mpr length)]
      cases lib.decode ((parsed.contents.drop 16).take 32 ++ parsed.contents.drop 53) with
      | none => simp [length]
      | some k => simp [length]
    · rw [if_pos tag, if_pos length]
      exact ⟨fun _ => ⟨tag, length⟩, fun _ => ⟨_, rfl⟩⟩
  · rw [if_neg tag]
    simp [tag]

theorem load_err_iff {fs : FileSystem} {path : Path} {file : File}
    (there : fs.entries path = some (.file file)) :
    (∃ e, Keypair.load lib path fs = .err e) ↔ Unloadable lib file := by
  cases readable : file.readable with
  | false =>
      have denied : fs.readToString path = .error .permissionDenied := by
        simp [readToString, there, readable]
      rw [Keypair.load, denied]
      exact ⟨fun _ => .inl readable, fun _ => ⟨_, rfl⟩⟩
  | true =>
      cases decoded : DagCbor.ofUtf8 file.contents with
      | none =>
          have invalid : fs.readToString path =
              .error (.invalidData "stream did not contain valid UTF-8") := by
            simp [readToString, there, readable, decoded]
          rw [Keypair.load, invalid]
          exact ⟨fun _ => .inr (.inl decoded), fun _ => ⟨_, rfl⟩⟩
      | some text =>
          have read : fs.readToString path = .ok text := by
            simp [readToString, there, readable, decoded]
          rw [Keypair.load, read]
          cases parse : lib.pemParse text with
          | none => simp [Unloadable, readable, decoded, parse]
          | some parsed =>
              simp only [parse, ofPem_err_iff]
              simp [Unloadable, readable, decoded, parse]

/-- What saving does to a file that is there. -/
theorem save_over (lib : KeyLib K) {fs : FileSystem} {path : Path} {file : File}
    (there : fs.entries path = some (.file file)) (k : K) :
    (Overwritable fs path file → ∃ file', (Keypair.save lib (.ed25519 k) path fs).2 =
        fs.setFile path file' ∧ file'.contents = DagCbor.utf8 (pemText lib k)) ∧
      (¬ Overwritable fs path file → (Keypair.save lib (.ed25519 k) path fs).2 = fs) := by
  rw [save_eq]
  constructor
  · rintro ⟨writable, dir, above, made⟩
    have emptied : fs.emptied path = .ok { file with contents := [] } := by
      simp [FileSystem.emptied, there, writable]
    simp only [above, made, emptied, if_true]
    split
    · exact ⟨_, rfl, rfl⟩
    · exact ⟨_, rfl, rfl⟩
  · intro refused
    cases above : parent path with
    | none => rfl
    | some dir =>
        by_cases made : fs.makesDir dir = true
        · have notWritable : file.writable = false := by
            rw [← Bool.not_eq_true]
            exact fun writable => refused ⟨writable, dir, above, made⟩
          have denied : fs.emptied path = .error .permissionDenied := by
            simp [FileSystem.emptied, there, notWritable]
          simp only [made, denied, if_true]
        · simp only [if_neg made]

/-- `loadOrNew` leaves the contents of the key file as they are, and changes an entry only
where no file was. -/
structure Keeps (lib : KeyLib K) (name : String) (dir : Path) (generated : K) (fs : FileSystem) :
    Prop where
  unchanged : ∀ file, fs.entries (keyPath name dir) = some (.file file) →
    ∃ file', (IdentityManager.loadOrNew lib name dir generated fs).2.entries (keyPath name dir) =
        some (.file file') ∧ file'.contents = file.contents
  created : ∀ path,
    (IdentityManager.loadOrNew lib name dir generated fs).2.entries path ≠ fs.entries path →
      ∀ file, fs.entries path ≠ some (.file file)

/-- The text tells the form of a key. -/
theorem pemEncode_inj (lawful : lib.Lawful) {contents contents' : Bytes}
    (same : lib.pemEncode ⟨"PRIVATE KEY", contents⟩ = lib.pemEncode ⟨"PRIVATE KEY", contents'⟩) :
    contents = contents' := by
  have parsed := lawful.pemParse_encode contents
  rw [same, lawful.pemParse_encode] at parsed
  cases parsed
  rfl

/-- The text tells the key. -/
theorem pemText_inj (lawful : lib.Lawful) {k k' : K} (same : pemText lib k = pemText lib k') :
    k = k' := by
  have whole := ofPem_layOut lawful k
  rw [pemEncode_inj lawful same, ofPem_layOut lawful k'] at whole
  cases whole
  rfl

/-- **When a key file is kept.**  Whatever key generation yields, `loadOrNew` overwrites no
file, exactly if the file at the key path, where there is one, can be loaded, makes loading
panic, or cannot be written. -/
theorem key_files_are_kept_iff [Nontrivial K] (lawful : lib.Lawful) (name : String) (dir : Path)
    (fs : FileSystem) :
    (∀ generated, Keeps lib name dir generated fs) ↔
      ∀ file, fs.entries (keyPath name dir) = some (.file file) → Unloadable lib file →
        ¬ Overwritable fs (keyPath name dir) file := by
  constructor
  · intro keeps file there unloadable overwritable
    obtain ⟨e, failed⟩ := (load_err_iff there).mpr unloadable
    have replaced : ∀ k, DagCbor.utf8 (pemText lib k) = file.contents := by
      intro k
      obtain ⟨file', after, same⟩ := (keeps k).unchanged file there
      obtain ⟨written, saved, contents⟩ := (save_over lib there k).1 overwritable
      rw [loadOrNew_eq, failed] at after
      simp only [new_snd, saved, setFile_entries, Option.some.injEq, Entry.file.injEq] at after
      rw [← contents, after, same]
    obtain ⟨k, k', differ⟩ := exists_pair_ne K
    exact differ (pemText_inj lawful (DagCbor.utf8_inj ((replaced k).trans (replaced k').symm)))
  · intro safe generated
    have still : ∀ file, fs.entries (keyPath name dir) = some (.file file) →
        (IdentityManager.loadOrNew lib name dir generated fs).2 = fs := by
      intro file there
      rw [loadOrNew_eq]
      cases loaded : Keypair.load lib (keyPath name dir) fs with
      | err e =>
          have refused := safe file there ((load_err_iff there).mp ⟨e, loaded⟩)
          dsimp only
          rw [new_snd, (save_over lib there generated).2 refused]
      | _ => rfl
    constructor
    · intro file there
      rw [still file there]
      exact ⟨file, there, rfl⟩
    · intro path changed file there
      by_cases own : path = keyPath name dir
      · subst own
        rw [still file there] at changed
        exact changed rfl
      · exact changed (loadOrNew_elsewhere lib own generated fs).entry

/-- A file with a private key in whatever form. -/
def privateKeyFile (lib : KeyLib K) (contents : Bytes) : File where
  contents := DagCbor.utf8 (lib.pemEncode ⟨"PRIVATE KEY", contents⟩)
  readable := true
  writable := true
  owned := true

theorem privateKeyFile_unloadable (lawful : lib.Lawful) {contents : Bytes}
    (length : contents.length ≠ 85) : Unloadable lib (privateKeyFile lib contents) :=
  .inr (.inr ⟨_, _, DagCbor.ofUtf8_utf8 _, lawful.pemParse_encode contents, rfl, length⟩)

/-- The disk of a node whose operator put a key in place. -/
def keyInPlace (lib : KeyLib K) (name : String) (dir : Path) (contents : Bytes) : FileSystem :=
  emptyDisk.setFile (keyPath name dir) (privateKeyFile lib contents)

theorem keyInPlace_entries (lib : KeyLib K) (name : String) (dir : Path) (contents : Bytes) :
    (keyInPlace lib name dir contents).entries (keyPath name dir) =
      some (.file (privateKeyFile lib contents)) :=
  setFile_entries _ _ _

/-- Where the form is another than that of `encodePem`, a new key takes the place. -/
theorem keyInPlace_overwritten (lawful : lib.Lawful) {name : String}
    (component : SingleComponent name) (dir : Path) {contents : Bytes}
    (length : contents.length ≠ 85) (k : K) :
    (IdentityManager.loadOrNew lib name dir k (keyInPlace lib name dir contents)).2.entries
        (keyPath name dir) = some (.file (keyFile lib k)) ∧
      (keyFile lib k).contents ≠ (privateKeyFile lib contents).contents := by
  have there := keyInPlace_entries lib name dir contents
  have saveable : Saveable (keyInPlace lib name dir contents) (keyPath name dir) := by
    obtain ⟨above, -⟩ := saveable_emptyDisk component dir
    refine ⟨above, { privateKeyFile lib contents with contents := [] }, ?_, rfl⟩
    simp [FileSystem.emptied, there, privateKeyFile]
  constructor
  · obtain ⟨e, failed⟩ := (load_err_iff there).mpr (privateKeyFile_unloadable lawful length)
    rw [loadOrNew_eq, failed]
    simp only [new_of_saveable k saveable, setFile_entries]
  · intro same
    have forms : layOut lib k = contents := pemEncode_inj lawful (DagCbor.utf8_inj same)
    exact length (forms ▸ length_layOut lawful k)

/-- The sample's secret half in the form that has no public half. -/
def shortForm : Bytes :=
  [0x30, 0x2e, 0x02, 0x01, 0x00, 0x30, 0x05, 0x06, 0x03, 0x2b, 0x65, 0x70, 0x04, 0x22, 0x04, 0x20] ++
    sampleSecret

/-- A valid key is replaced by a new one. -/
theorem short_key_is_overwritten :
    (keyInPlace plainKeys "node" keysDir shortForm).entries (keyPath "node" keysDir) =
        some (.file (privateKeyFile plainKeys shortForm)) ∧
      (IdentityManager.loadOrNew plainKeys "node" keysDir otherKey
          (keyInPlace plainKeys "node" keysDir shortForm)).2.entries (keyPath "node" keysDir) =
        some (.file (keyFile plainKeys otherKey)) ∧
      (keyFile plainKeys otherKey).contents ≠ (privateKeyFile plainKeys shortForm).contents ∧
      ¬ Keeps plainKeys "node" keysDir otherKey (keyInPlace plainKeys "node" keysDir shortForm) := by
  have there := keyInPlace_entries plainKeys "node" keysDir shortForm
  have length : shortForm.length ≠ 85 := by decide
  obtain ⟨after, differ⟩ :=
    keyInPlace_overwritten plainKeys_lawful node_component keysDir length otherKey
  refine ⟨there, after, differ, fun keeps => ?_⟩
  obtain ⟨file', entry, same⟩ := keeps.unchanged _ there
  rw [after, Option.some.injEq, Entry.file.injEq] at entry
  rw [← entry] at same
  exact differ same

/-- A key in the long form is kept. -/
theorem key_files_are_kept_node :
    Keeps plainKeys "node" keysDir otherKey
      (emptyDisk.setFile (keyPath "node" keysDir) (keyFile plainKeys sampleKey)) := by
  have : Nontrivial { b : Bytes // b.length = 64 } := ⟨sampleKey, otherKey, by decide⟩
  refine (key_files_are_kept_iff plainKeys_lawful "node" keysDir _).mpr ?_ otherKey
  intro file there unloadable
  obtain ⟨e, failed⟩ := (load_err_iff there).mpr unloadable
  rw [load_keyFile plainKeys_lawful (setFile_entries _ _ _)] at failed
  cases failed

end Ursa.Identity
