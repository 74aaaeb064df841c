import BuildboxCommon.Merklize.DirectoryTree

set_option autoImplicit false

namespace BuildboxCommon.MergeUtil

open ByteString FileUtils

inductive NodeMetaData where
  | file (path : Bytes) (stored : File)
  | symlink (path target : Bytes)
  | dir (path : Bytes) (digest : Digest)
deriving DecidableEq

namespace NodeMetaData

def path : NodeMetaData → Bytes
  | .file path _ | .symlink path _ | .dir path _ => path

def digest : NodeMetaData → Digest
  | .file _ stored => stored.digest
  | .symlink _ _ => .unset
  | .dir _ digest => digest

def isExecutable : NodeMetaData → Bool
  | .file _ stored => stored.executable
  | .symlink _ _ | .dir _ _ => false

def equalsFile (obj : NodeMetaData) (fileNode : FileNode) : Bool :=
  obj.digest.key = fileNode.digest.key ∧ obj.isExecutable = fileNode.isExecutable

def addToNestedDirectory : NodeMetaData → NestedDirectory → NestedDirectory
  | .file path stored => NestedDirectory.add stored path
  | .symlink path target => NestedDirectory.addSymlink target path
  | .dir path _ => NestedDirectory.addDirectory path

end NodeMetaData

abbrev PathNodeMetaDataMap := UnorderedMap (id : Bytes → Bytes) NodeMetaData

def digestText (digest : Digest) : Bytes :=
  digest.hashOther ++ text "/" ++ text (toString digest.sizeBytes)

def boolText (flag : Bool) : Bytes := if flag then text "true" else text "false"

def genNewPath (dirName nodeName : Bytes) : Bytes :=
  if dirName = [] then nodeName else dirName ++ slash :: nodeName

def flattenFile (dirName : Bytes) (map : PathNodeMetaDataMap) (node : FileNode) :
    Except Exn PathNodeMetaDataMap :=
  let newFile := genNewPath dirName node.name
  let added := map.emplace newFile (.file newFile ⟨node.digest, node.isExecutable, none⟩)
  match map.find newFile with
  | none => .ok added
  | some stored =>
    if stored.equalsFile node then .ok added
    else
      .error (.runtimeError (text "file collision: existing file [" ++ stored.path ++ text ":" ++
        digestText stored.digest ++ text ":" ++ boolText stored.isExecutable ++ text "]" ++
        text " detected while attempting to add new file [" ++ newFile ++ text ":" ++
        digestText node.digest ++ text ":" ++ boolText node.isExecutable))

def flattenSymlink (dirName : Bytes) (map : PathNodeMetaDataMap) (node : SymlinkNode) :
    Except Exn PathNodeMetaDataMap :=
  let newSymlinkName := genNewPath dirName node.name
  let added := map.emplace newSymlinkName (.symlink newSymlinkName node.target)
  match map.find newSymlinkName with
  | some (.symlink _ target) =>
    if target = node.target then .ok added
    else
      .error (.runtimeError (text "error processing symlink: existing symlink [" ++ newSymlinkName ++
        text " -> " ++ target ++ text "] has the same name but different target than new symlink [" ++
        newSymlinkName ++ text " -> " ++ node.target ++ text "]"))
  | _ => .ok added

-- `stack` bounds the depth of the recursion. A digest that is not found is logged and skipped.
def buildFlattenedPath (codec : Encoding Directory) (dsMap : DigestStringMap) :
    Nat → PathNodeMetaDataMap → Directory → Bytes → Except Exn PathNodeMetaDataMap
  | 0, _, _, _ => .error .stackOverflow
  | stack + 1, map, directory, dirName => do
    let map ← directory.files.foldlM (flattenFile dirName) map
    let map ← directory.symlinks.foldlM (flattenSymlink dirName) map
    directory.directories.foldlM (fun map node => do
      let newDirectoryPath := genNewPath dirName node.name
      let map := map.emplace newDirectoryPath (.dir newDirectoryPath node.digest)
      match dsMap.find node.digest with
      | none => return map
      | some serialized =>
        buildFlattenedPath codec dsMap stack map (codec.parseFromString serialized) newDirectoryPath) map

def buildDigestDirectoryMap (hash : Bytes → Bytes) (codec : Encoding Directory) (tree : List Directory)
    (dsMap : DigestStringMap) : DigestStringMap :=
  tree.foldl (fun dsMap directory =>
    let serialized := codec.serializeAsString directory
    dsMap.emplace (makeDigest hash serialized) serialized) dsMap

structure MergeOutputs where
  rootDigest : Digest
  newDirectoryBlobs : DigestStringMap
  mergedDirectoryList : Option (List Digest)

def at0 (tree : List Directory) : Except Exn Directory :=
  match tree.head? with
  | none => .error .outOfRange
  | some directory => .ok directory

def flattenTrees (codec : Encoding Directory) (dsMap : DigestStringMap) (stack : Nat)
    (inputTree templateTree : List Directory) : Except Exn PathNodeMetaDataMap := do
  let map ← buildFlattenedPath codec dsMap stack .empty (← at0 inputTree) []
  buildFlattenedPath codec dsMap stack map (← at0 templateTree) []

structure Iteration where
  map : IterationOrder (id : Bytes → Bytes) NodeMetaData
  newDirectoryBlobs : IterationOrder Digest.key Bytes

def createMergedDigest (hash : Bytes → Bytes) (codec : Encoding Directory) (stack : Nat)
    (iteration : Iteration) (inputTree templateTree : List Directory) (outputs : MergeOutputs) :
    Except Exn (Bool × MergeOutputs) :=
  if inputTree = [] ∧ templateTree = [] then .ok (false, outputs)
  else
    let dsMap := buildDigestDirectoryMap hash codec inputTree .empty
    let dsMap := buildDigestDirectoryMap hash codec templateTree dsMap
    match flattenTrees codec dsMap stack inputTree templateTree with
    | .error thrown => if thrown.isRuntimeError then .ok (false, outputs) else .error thrown
    | .ok map =>
      let result := (iteration.map.visit map).foldl
        (fun result it => it.2.addToNestedDirectory result) NestedDirectory.empty
      let (rootDigest, newDirectoryBlobs) := result.toDigest hash codec outputs.newDirectoryBlobs
      let merged := (iteration.newDirectoryBlobs.visit newDirectoryBlobs).filter fun it =>
        dsMap.find it.1 = none
      .ok (true, ⟨rootDigest, newDirectoryBlobs,
        outputs.mergedDirectoryList.map fun list => list ++ merged.map Prod.fst⟩)

end BuildboxCommon.MergeUtil
