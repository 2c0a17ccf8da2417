/-
# The instance

`instance` is what the programs call. It keeps the objects, which are folders of entries,
in a handle table, with an index by path for all but the root, and hands everything about
entries on to the storage.

A call that throws keeps what it did before, so the instance stands next to the result.
-/

import Obsr.Storage.Storage

namespace Obsr

open Obsr.Lib

structure ObjectData where
  name : Text
  path : Text
  deriving DecidableEq, Repr

/-- What a call of the instance throws: an exception of the tables or the storage, one of
its own, or that of a `substr` behind the end. -/
inductive InstanceException
  | thrown (exception : Exception)
  | invalidPath (path : Text)
  | invalidName (name : Text)
  | cannotDeleteRoot
  | outOfRange
  deriving DecidableEq, Repr

structure Instance where
  objects : HandleTable ObjectData 256
  objectPaths : OrderedMap Text Handle
  root : Handle
  storage : Storage

namespace Instance

def slash : UInt8 := 47

def new : Instance where
  objects := ⟨Function.update (fun _ => none) 0 (some ⟨[], []⟩)⟩
  objectPaths := OrderedMap.empty
  root := 0
  storage := Storage.new

/-! ## Paths -/

/-- The names between the slashes: what a search for the next slash finds, over and over.
There is always a last one; it is empty behind a slash at the end. -/
def names : Text → List Text
  | [] => [[]]
  | byte :: rest =>
      if byte = slash then [] :: names rest
      else
        match names rest with
        | [] => [[byte]]
        | name :: others => (byte :: name) :: others

/-- `get_parent_path`: what is in front of the last slash. -/
def parentPath (path : Text) : Option Text :=
  if slash ∈ path then some (path.reverse.dropWhile (· ≠ slash)).tail.reverse else none

/-- `get_path_name`: what is behind the last slash. -/
def pathName (path : Text) : Text :=
  if slash ∈ path then (path.reverse.takeWhile (· ≠ slash)).reverse else []

/-- `verify_valid_name`. -/
def validName (name : Text) : Bool := name ≠ [] ∧ slash ∉ name

/-! ## Objects -/

def getOrCreateChild (i : Instance) (parent : Handle) (name : Text) :
    Instance × Except InstanceException Handle :=
  match i.objects.get? parent with
  | none => (i, .error (.thrown (.noSuchHandle parent)))
  | some data =>
      let path := data.path ++ slash :: name
      match i.objectPaths.find? path with
      | some object => (i, .ok object)
      | none =>
          match i.objects.allocateNew ⟨name, path⟩ with
          | .error exception => (i, .error (.thrown exception))
          | .ok (object, objects) =>
              ({ i with objects, objectPaths := i.objectPaths.emplace path object }, .ok object)

/-- The loop of `get_or_create_object` over the names of its path. -/
def getOrCreateNames (path : Text) :
    List Text → Handle → Instance → Instance × Except InstanceException Handle
  | [], _, i => (i, .error (.invalidPath path))
  -- the leaf; without a name it is the root or nothing
  | [name], current, i =>
      if name = [] then
        if current = i.root then (i, .ok i.root) else (i, .error (.invalidPath path))
      else i.getOrCreateChild current name
  | name :: others, current, i =>
      match i.getOrCreateChild current name with
      | (i, .ok current) => getOrCreateNames path others current i
      | (i, .error exception) => (i, .error exception)

/-- The first character is skipped, whatever it is; of an empty path there is none to
skip. -/
def getOrCreateObject (i : Instance) (path : Text) :
    Instance × Except InstanceException Handle :=
  match path with
  | [] => (i, .error .outOfRange)
  | _ :: rest => getOrCreateNames path (names rest) i.root i

def getObject (i : Instance) (path : Text) : Instance × Except InstanceException Handle :=
  if path = [] then (i, .ok i.root) else i.getOrCreateObject path

def getChild (i : Instance) (object : Handle) (name : Text) :
    Instance × Except InstanceException Handle :=
  if validName name then i.getOrCreateChild object name else (i, .error (.invalidName name))

def deleteObject (i : Instance) (now : ℤ) (object : Handle) :
    Instance × Except InstanceException Unit :=
  if object = i.root then (i, .error .cannotDeleteRoot)
  else
    match i.objects.get? object with
    | none => (i, .error (.thrown (.noSuchHandle object)))
    | some data =>
        ({ i with
            storage := i.storage.deleteEntries now data.path
            objects := i.objects.release object }, .ok ())

/-! ## Entries -/

/-- The entry of the storage at a path. -/
def getStorageEntry (i : Instance) (path : Text) : Instance × Except InstanceException Handle :=
  let (storage, result) := i.storage.getOrCreateEntry path
  ({ i with storage }, result.mapError .thrown)

/-- `get_entry(path)`. -/
def getEntry (i : Instance) (path : Text) : Instance × Except InstanceException Handle :=
  match parentPath path with
  | none => (i, .error (.invalidPath path))
  | some parent =>
      match i.getOrCreateObject parent with
      | (i, .ok _) => i.getStorageEntry path
      | (i, .error exception) => (i, .error exception)

/-- `get_entry(obj, name)`. -/
def getEntryIn (i : Instance) (object : Handle) (name : Text) :
    Instance × Except InstanceException Handle :=
  if validName name then
    match i.objects.get? object with
    | none => (i, .error (.thrown (.noSuchHandle object)))
    | some data => i.getStorageEntry (data.path ++ slash :: name)
  else (i, .error (.invalidName name))

def setValue (i : Instance) (now : ℤ) (entry : Handle) (value : Value) :
    Instance × Except InstanceException Unit :=
  let (storage, result) := i.storage.setEntryValue now entry value
  ({ i with storage }, result.mapError .thrown)

/-! ## Calls -/

inductive Call
  | getObject (path : Text)
  | getChild (object : Handle) (name : Text)
  | getEntry (path : Text)
  | getEntryIn (object : Handle) (name : Text)
  | setValue (now : ℤ) (entry : Handle) (value : Value)
  | deleteObject (now : ℤ) (object : Handle)
  deriving DecidableEq, Repr

def call (i : Instance) : Call → Instance
  | .getObject path => (i.getObject path).1
  | .getChild object name => (i.getChild object name).1
  | .getEntry path => (i.getEntry path).1
  | .getEntryIn object name => (i.getEntryIn object name).1
  | .setValue now entry value => (i.setValue now entry value).1
  | .deleteObject now object => (i.deleteObject now object).1

end Instance

end Obsr
