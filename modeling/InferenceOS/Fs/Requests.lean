import InferenceOS.Fs.Search

/-! The calls of the file service with their arguments: those that change a volume, and those that only read it. -/

namespace InferenceOS
open Program FileService

/-- A call that changes the volume. -/
inductive Request where
  | create (path : Option Text)
  | createFile (parentIdentity : Nat) (component : Text)
  | replace (path : Option Text) (bytes : Text)
  | append (path : Option Text) (bytes : Text)
  | replaceObject (objectIdentity : Nat) (bytes : Text)
  | appendObject (objectIdentity : Nat) (bytes : Text)
  | rename (source destination : Option Text)
  | renameObject (objectIdentity destinationParentIdentity : Nat) (destinationBase : Text)
  | remove (path : Option Text)
  | removeObject (objectIdentity : Nat)
  | createDirectory (parentIdentity : Nat) (component : Text)
  | removeDirectory (parentIdentity : Nat) (component : Text)
  | vfsRename (sourceParentIdentity : Nat) (sourceComponent : Text) (destinationParentIdentity : Nat)
    (destinationComponent : Text)

namespace Request

/-- Carry out the call. Its result is the object that it created, if any. -/
def run : Request → Service (Option VfsObject)
  | .create path => (fun _ => none) <$> FileService.create path
  | .createFile parent component => some <$> FileService.createFile parent component
  | .replace path bytes => (fun _ => none) <$> FileService.replace path bytes
  | .append path bytes => (fun _ => none) <$> FileService.append path bytes
  | .replaceObject identity bytes => (fun _ => none) <$> FileService.replaceObject identity bytes
  | .appendObject identity bytes => (fun _ => none) <$> FileService.appendObject identity bytes
  | .rename source destination => (fun _ => none) <$> FileService.rename source destination
  | .renameObject identity parent base => (fun _ => none) <$> FileService.renameObject identity parent base
  | .remove path => (fun _ => none) <$> FileService.remove path
  | .removeObject identity => (fun _ => none) <$> FileService.removeObject identity
  | .createDirectory parent component => some <$> FileService.createDirectory parent component
  | .removeDirectory parent component => (fun _ => none) <$> FileService.removeDirectory parent component
  | .vfsRename parent component parent' component' =>
    (fun _ => none) <$> FileService.vfsRename parent component parent' component'

/-- The directory identities among the arguments. -/
def parents : Request → List Nat
  | .createFile parent _ => [parent]
  | .renameObject _ parent _ => [parent]
  | .createDirectory parent _ => [parent]
  | .removeDirectory parent _ => [parent]
  | .vfsRename parent _ parent' _ => [parent, parent']
  | _ => []

/-- The object identities among the arguments. -/
def objects : Request → List Nat
  | .replaceObject identity _ => [identity]
  | .appendObject identity _ => [identity]
  | .renameObject identity _ _ => [identity]
  | .removeObject identity => [identity]
  | _ => []

end Request

/-- A call that reads the volume. -/
inductive Query where
  | lookup (directoryIdentity : Nat) (component : Text)
  | enumerate (directoryIdentity continuation capacity : Nat)
  | read (path : Option Text) (offset capacity : Nat)
  | readObject (objectIdentity offset capacity : Nat)
  | searchExtension (extension : Text) (capacity : Nat)

/-- Carry out the call, without its result. -/
def Query.run : Query → Service Unit
  | .lookup directory component => (fun _ => ()) <$> FileService.lookup directory component
  | .enumerate directory continuation capacity => (fun _ => ()) <$> FileService.enumerate directory continuation capacity
  | .read path offset capacity => (fun _ => ()) <$> FileService.read path offset capacity
  | .readObject identity offset capacity => (fun _ => ()) <$> FileService.readObject identity offset capacity
  | .searchExtension extension capacity => (fun _ => ()) <$> FileService.searchExtension extension capacity

/-- A call of the file service. -/
inductive Call where
  | start (fatStorageSize : Nat)
  | request (r : Request)
  | query (q : Query)

/-- Carry out the call, without its result. -/
def Call.run : Call → Service Unit
  | .start fatStorageSize => FileService.fileServiceInitialize fatStorageSize
  | .request r => (fun _ => ()) <$> r.run
  | .query q => q.run

end InferenceOS
