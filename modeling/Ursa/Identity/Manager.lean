/-
# Identity.Manager — the node's keypair and its file

`ursa/src/ursa/identity.rs`.  A node has a name; its Ed25519 keypair lies in a PEM file
under that name.  `loadOrNew` reads the file and makes a new keypair, and a new file, when
there is nothing to load.

* `Keypair.encodePem` lays the key out by hand: a fixed header, the secret half, a fixed
  separator, the public half.  `Keypair.load` cuts the halves out at fixed offsets.
* `Keypair.load` has two ways to fail.  A file that is absent, cannot be read, is not UTF-8
  or whose key has the wrong length is an error, and the caller goes on; a text that is not
  PEM, another tag and a key that cannot be decoded panic.
* `Keypair.save` creates the file or empties the one that is there, writes it, and then sets
  its mode.

The file system (`FileSystem`) says for every path what is there and what the process may
do with it.  What is written is what is read; there are no links from one path to another,
and directories on the way to a file are made or not, as `canMakeDir` says.  Once a file is
created, `write_all`, `sync_all` and `metadata` do not fail: a full or broken disk, which would
leave the file empty or cut off, is not modelled.
-/
import Ursa.Identity.Path
import Ursa.Theory.Outcome
import Ursa.Theory.Pem
import Mathlib.Logic.Function.Basic

namespace Ursa.Identity

set_option autoImplicit false

open Ursa.Theory (Outcome Pem)

/-! ## Files -/

inductive IoError where
  | notFound
  | permissionDenied
  | isADirectory
  | invalidData (message : String)
  deriving DecidableEq, Repr

/-- A file, and what the process may do with it. -/
structure File where
  contents : Bytes
  readable : Bool
  writable : Bool
  /-- The process may change the mode. -/
  owned : Bool
  deriving DecidableEq

inductive Entry where
  | file (file : File)
  | directory
  deriving DecidableEq

structure FileSystem where
  entries : Path → Option Entry
  /-- The directory is there, or it can be made with all that are missing above it. -/
  canMakeDir : Path → Bool
  /-- A file that is not there can be made. -/
  canMakeFile : Path → Bool

namespace FileSystem

def setFile (fs : FileSystem) (path : Path) (file : File) : FileSystem :=
  { fs with entries := Function.update fs.entries path (some (.file file)) }

/-- `File::open` and `read_to_string`; opening a directory succeeds, reading it does not. -/
def readToString (fs : FileSystem) (path : Path) : Except IoError String :=
  match fs.entries path with
  | none => .error .notFound
  | some .directory => .error .isADirectory
  | some (.file file) =>
      if file.readable then
        match DagCbor.ofUtf8 file.contents with
        | some text => .ok text
        | none => .error (.invalidData "stream did not contain valid UTF-8")
      else .error .permissionDenied

/-- `create_dir_all` succeeds; there is nothing to make for the current directory. -/
def makesDir (fs : FileSystem) (dir : Path) : Bool := dir = [] || fs.canMakeDir dir

/-- The empty file that `File::create` opens. -/
def emptied (fs : FileSystem) (path : Path) : Except IoError File :=
  match fs.entries path with
  | none =>
      if fs.canMakeFile path then
        .ok { contents := [], readable := true, writable := true, owned := true }
      else .error .permissionDenied
  | some .directory => .error .isADirectory
  | some (.file file) =>
      if file.writable then .ok { file with contents := [] } else .error .permissionDenied

def create (fs : FileSystem) (path : Path) : Except IoError FileSystem :=
  match fs.emptied path with
  | .ok file => .ok (fs.setFile path file)
  | .error e => .error e

/-- `write_all` on a file that was just created. -/
def writeAll (fs : FileSystem) (path : Path) (data : Bytes) : FileSystem :=
  match fs.entries path with
  | some (.file file) => fs.setFile path { file with contents := file.contents ++ data }
  | _ => fs

/-- `set_permissions` to 0600. -/
def setPermissions (fs : FileSystem) (path : Path) : Except IoError FileSystem :=
  match fs.entries path with
  | some (.file file) =>
      if file.owned then .ok (fs.setFile path { file with readable := true, writable := true })
      else .error .permissionDenied
  | some .directory => .error .permissionDenied
  | none => .error .notFound

end FileSystem

/-! ## Keys -/

/-- What the code uses of `libp2p::identity::ed25519` and of `pem`. -/
structure KeyLib (K : Type) where
  /-- `Keypair::encode`: the secret half, then the public half. -/
  encode : K → Bytes
  /-- `Keypair::decode` -/
  decode : Bytes → Option K
  /-- `pem::encode` -/
  pemEncode : Pem → String
  /-- `pem::parse` -/
  pemParse : String → Option Pem

/-- The two libraries read what they write; a keypair is 64 bytes. -/
structure KeyLib.Lawful {K : Type} (lib : KeyLib K) : Prop where
  length_encode : ∀ k, (lib.encode k).length = 64
  decode_encode : ∀ k, lib.decode (lib.encode k) = some k
  pemParse_encode : ∀ contents,
    lib.pemParse (lib.pemEncode ⟨"PRIVATE KEY", contents⟩) = some ⟨"PRIVATE KEY", contents⟩

inductive Keypair (K : Type) where
  | ed25519 (keypair : K)
  /-- A key of another scheme. -/
  | other

/-- ASN.1 header id-ed25519 -/
def asn1Header : Bytes :=
  [0x30, 0x53, 0x02, 0x01, 0x01, 0x30, 0x05, 0x06, 0x03, 0x2B, 0x65, 0x70, 0x04, 0x22, 0x04, 0x20]

def pubkeySeparator : Bytes := [0xA1, 0x23, 0x03, 0x21, 0x00]

section Keypairs

variable {K : Type} (lib : KeyLib K)

/-- The key as it stands in the PEM file. -/
def layOut (k : K) : Bytes :=
  let key := lib.encode k
  asn1Header ++ (key.take 32 ++ (pubkeySeparator ++ key.drop 32))

def pemText (k : K) : String := lib.pemEncode ⟨"PRIVATE KEY", layOut lib k⟩

/-- The file that saving leaves. -/
def keyFile (k : K) : File :=
  { contents := DagCbor.utf8 (pemText lib k), readable := true, writable := true, owned := true }

namespace Keypair

def encodePem : Keypair K → Outcome IoError String
  | .ed25519 k => .ok (pemText lib k)
  | .other => .panic "Unsupported key type"

def save (keypair : Keypair K) (path : Path) (fs : FileSystem) : Outcome IoError Unit × FileSystem :=
  match keypair.encodePem lib with
  | .err e => (.err e, fs)
  | .panic m => (.panic m, fs)
  | .diverge => (.diverge, fs)
  | .ok pem =>
      match parent path with
      | none => (.panic "called `Option::unwrap()` on a `None` value", fs)
      | some dir =>
          if fs.makesDir dir then
            match fs.create path with
            | .error e => (.err e, fs)
            | .ok fs =>
                let fs := fs.writeAll path (DagCbor.utf8 pem)
                match fs.setPermissions path with
                | .error e => (.err e, fs)
                | .ok fs => (.ok (), fs)
          else (.err .permissionDenied, fs)

/-- The keypair of a parsed PEM file. -/
def ofPem (parsed : Pem) : Outcome IoError (Keypair K) :=
  if parsed.tag = "PRIVATE KEY" then
    if parsed.contents.length ≠ 85 then .err (.invalidData "Invalid ed25519 key length")
    else
      -- the secret half from 16 to 48, the public half from 53 on
      match lib.decode ((parsed.contents.drop 16).take 32 ++ parsed.contents.drop 53) with
      | some k => .ok (.ed25519 k)
      | none => .panic "called `Result::unwrap()` on an `Err` value"
  else .panic "Unsupported key type"

def load (path : Path) (fs : FileSystem) : Outcome IoError (Keypair K) :=
  match fs.readToString path with
  | .error e => .err e
  | .ok contents =>
      match lib.pemParse contents with
      | none => .panic "called `Result::unwrap()` on an `Err` value"
      | some parsed => ofPem lib parsed

end Keypair

/-! ## The manager -/

structure IdentityManager (K : Type) where
  name : String
  identity : Keypair K
  dir : Path

namespace IdentityManager

/-- `new`; `generated` is what key generation yields. -/
def new (name : String) (dir : Path) (generated : K) (fs : FileSystem) :
    Outcome IoError (IdentityManager K) × FileSystem :=
  let (saved, fs) := Keypair.save lib (.ed25519 generated) (keyPath name dir) fs
  Outcome.andThen (saved.expect "called `Result::unwrap()` on an `Err` value", fs) fun _ fs =>
    (.ok { name, dir, identity := .ed25519 generated }, fs)

def load (name : String) (dir : Path) (fs : FileSystem) :
    Outcome IoError (Option (IdentityManager K)) :=
  match Keypair.load lib (keyPath name dir) fs with
  | .ok identity => .ok (some { name, identity, dir })
  | .err _ => .ok none
  | .panic m => .panic m
  | .diverge => .diverge

def loadOrNew (name : String) (dir : Path) (generated : K) (fs : FileSystem) :
    Outcome IoError (IdentityManager K) × FileSystem :=
  match load lib name dir fs with
  | .ok (some im) => (.ok im, fs)
  -- "if not found"
  | .ok none => new lib name dir generated fs
  | .err e => (.err e, fs)
  | .panic m => (.panic m, fs)
  | .diverge => (.diverge, fs)

end IdentityManager

end Keypairs

/-! ## Reading and writing the layout -/

section Layout

variable {K : Type} {lib : KeyLib K}

theorem length_layOut (lawful : lib.Lawful) (k : K) : (layOut lib k).length = 85 := by
  simp [layOut, asn1Header, pubkeySeparator, lawful.length_encode k]

/-- The offsets of the reader are those of the writer. -/
theorem ofPem_layOut (lawful : lib.Lawful) (k : K) :
    Keypair.ofPem lib ⟨"PRIVATE KEY", layOut lib k⟩ = .ok (.ed25519 k) := by
  have whole := lawful.length_encode k
  have front : ((lib.encode k).take 32).length = 32 := by
    rw [List.length_take, whole]
    rfl
  have secret : ((layOut lib k).drop 16).take 32 = (lib.encode k).take 32 := by
    have header : asn1Header.length = 16 := rfl
    rw [layOut, ← header, List.drop_left, List.take_left' front]
  have open' : (layOut lib k).drop 53 = (lib.encode k).drop 32 := by
    have before : (asn1Header ++ ((lib.encode k).take 32 ++ pubkeySeparator)).length = 53 := by
      simp [asn1Header, pubkeySeparator, whole]
    have shape : layOut lib k =
        (asn1Header ++ ((lib.encode k).take 32 ++ pubkeySeparator)) ++ (lib.encode k).drop 32 := by
      simp [layOut]
    rw [shape, ← before, List.drop_left]
  rw [Keypair.ofPem]
  simp only [if_true, length_layOut lawful k, ne_eq, not_true_eq_false, if_false, secret, open',
    List.take_append_drop, lawful.decode_encode]

/-- A readable file with the text of a key is loaded. -/
theorem load_pemText (lawful : lib.Lawful) {fs : FileSystem} {path : Path} {file : File} {k : K}
    (there : fs.entries path = some (.file file)) (readable : file.readable = true)
    (contents : file.contents = DagCbor.utf8 (pemText lib k)) :
    Keypair.load lib path fs = .ok (.ed25519 k) := by
  have text : fs.readToString path = .ok (pemText lib k) := by
    simp [FileSystem.readToString, there, readable, contents, DagCbor.ofUtf8_utf8]
  rw [Keypair.load, text]
  simp only [pemText, lawful.pemParse_encode]
  exact ofPem_layOut lawful k

/-- Nothing is left of a file that is emptied. -/
theorem emptied_contents {fs : FileSystem} {path : Path} {file : File}
    (isFile : fs.emptied path = .ok file) : file.contents = [] := by
  unfold FileSystem.emptied at isFile
  split at isFile
  · split at isFile <;> cases isFile
    rfl
  · cases isFile
  · split at isFile <;> cases isFile
    rfl

/-- **What saving does**: nothing, or the file at the path is emptied and holds the key. -/
theorem save_eq (lib : KeyLib K) (k : K) (path : Path) (fs : FileSystem) :
    Keypair.save lib (.ed25519 k) path fs =
      match parent path with
      | none => (.panic "called `Option::unwrap()` on a `None` value", fs)
      | some dir =>
          if fs.makesDir dir then
            match fs.emptied path with
            | .error e => (.err e, fs)
            | .ok file =>
                if file.owned then (.ok (), fs.setFile path (keyFile lib k))
                else
                  (.err .permissionDenied,
                    fs.setFile path { file with contents := DagCbor.utf8 (pemText lib k) })
          else (.err .permissionDenied, fs) := by
  simp only [Keypair.save, Keypair.encodePem, FileSystem.create]
  split
  · rfl
  · split
    · cases emptied : fs.emptied path with
      | error e => rfl
      | ok file =>
          have empty := emptied_contents emptied
          cases owned : file.owned with
          | false =>
              simp [FileSystem.writeAll, FileSystem.setPermissions, FileSystem.setFile, empty, owned]
          | true =>
              simp [FileSystem.writeAll, FileSystem.setPermissions, FileSystem.setFile, keyFile, empty,
                owned]
    · rfl

end Layout

end Ursa.Identity
